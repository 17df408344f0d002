/-
# What a cursor shows

However a cursor was used, what it shows is determined by two things: the
tokens that were loaded last, and how often it was moved since (`Progress`).
If it was moved `k` times, the lookahead is the token that the `k`-th move put
there, the token read last is the one before it, and the tokens in front are
dropped from those to come. Past the end the slots run out one after the
other. Questions leave the cursor as it is, and so does a text that has no
tokens.

One operation takes the cursor of a progress to that of the next one
(`Progress.perform_cursor`), and so does any sequence of them
(`Progress.run_cursor`).

Key definitions: `Cursor.Operation`, `Cursor.perform`, `Cursor.run`,
`Progress`, `Progress.cursor`.
Key theorems: `Progress.perform_cursor`, `Progress.run_cursor`,
`Cursor.run_slots`.
-/
import NestedQuery.Query.Parser

namespace NestedQuery

/-! ### Operations -/

namespace Cursor

/-- What can be done with a cursor. -/
inductive Operation where
  | moveNext
  | glimpse
  | lookaheadText
  | isNext (kind : Kind)
  | isNextAny (kinds : List Kind)
  | load (text : String)

/-- What a cursor answers. -/
inductive Answer where
  /-- Whether a token is left behind the move. -/
  | moved (more : Bool)
  | token (token : Option Token)
  | text (text : Option String)
  | verdict (holds : Bool)
  | loaded (outcome : Except LexError Unit)

/-- The answer to an operation and the cursor behind it. -/
def perform (cursor : Cursor) : Operation → Answer × Cursor
  | .moveNext => (.moved cursor.moveNext.hasNext, cursor.moveNext)
  | .glimpse => (.token cursor.glimpse, cursor)
  | .lookaheadText => (.text cursor.lookaheadText, cursor)
  | .isNext kind => (.verdict (cursor.isNext kind), cursor)
  | .isNextAny kinds => (.verdict (cursor.isNextAny kinds), cursor)
  | .load text => (.loaded (cursor.load text).1, (cursor.load text).2)

/-- The cursor behind a sequence of operations. -/
def run (cursor : Cursor) (ops : List Operation) : Cursor :=
  ops.foldl (fun cursor op => (cursor.perform op).2) cursor

/-- The operation neither moves the cursor nor puts new tokens before it. -/
def Operation.Idle : Operation → Prop
  | moveNext => False
  | load text => ∀ tokens, scan text ≠ .ok tokens
  | _ => True

end Cursor

open Cursor

/-- The tokens that were loaded last, and the number of moves since. -/
structure Progress where
  tokens : List Token := []
  moves : Nat := 0

namespace Progress

/-- One operation further. -/
def after (progress : Progress) : Operation → Progress
  | .moveNext => { progress with moves := progress.moves + 1 }
  | .load text =>
    match scan text with
    | .ok tokens => { tokens }
    | .error _ => progress
  | _ => progress

/-- Any number of operations further. -/
def afterAll (progress : Progress) (ops : List Operation) : Progress := ops.foldl after progress

/-- The cursor that has come so far. -/
def cursor (progress : Progress) : Cursor where
  token := if progress.moves < 2 then none else progress.tokens[progress.moves - 2]?
  lookahead := if progress.moves = 0 then none else progress.tokens[progress.moves - 1]?
  upcoming := progress.tokens.drop progress.moves

variable (progress : Progress)

/-- A cursor that was never moved stands in front of its tokens. -/
theorem cursor_start (tokens : List Token) : (Progress.mk tokens 0).cursor = .ofTokens tokens := rfl

/-! ### One operation -/

theorem after_load_ok {text : String} {tokens : List Token} (hs : scan text = .ok tokens) :
    progress.after (.load text) = ⟨tokens, 0⟩ := by
  simp only [after, hs]

theorem after_load_error {text : String} {e : LexError} (hs : scan text = .error e) :
    progress.after (.load text) = progress := by
  simp only [after, hs]

/-- A move passes the lookahead on and takes the first of the tokens to come. -/
theorem moveNext_eq (cursor : Cursor) :
    cursor.moveNext = ⟨cursor.lookahead, cursor.upcoming.head?, cursor.upcoming.tail⟩ := by
  unfold moveNext
  rcases cursor.upcoming with _ | ⟨token, upcoming⟩ <;> rfl

theorem moveNext_cursor : progress.cursor.moveNext = (progress.after .moveNext).cursor := by
  obtain ⟨tokens, k⟩ := progress
  have htoken : (if k + 1 < 2 then none else tokens[k + 1 - 2]?) =
      if k = 0 then none else tokens[k - 1]? := by
    by_cases hk : k = 0
    · rw [if_pos hk, if_pos (by omega)]
    · rw [if_neg hk, if_neg (by omega), Nat.add_sub_add_right k 1 1]
  have hlookahead : (tokens.drop k).head? = tokens[k]? := List.head?_drop
  have hupcoming : (tokens.drop k).tail = tokens.drop (k + 1) := List.tail_drop
  rw [moveNext_eq]
  show Cursor.mk _ (tokens.drop k).head? (tokens.drop k).tail =
    ⟨if k + 1 < 2 then none else tokens[k + 1 - 2]?, tokens[k]?, tokens.drop (k + 1)⟩
  rw [htoken, hlookahead, hupcoming]
  rfl

/-- The last move found a token exactly if there are as many tokens as there were moves. -/
theorem hasNext_cursor (h : 0 < progress.moves) :
    progress.cursor.hasNext = decide (progress.moves ≤ progress.tokens.length) := by
  show (if progress.moves = 0 then none else progress.tokens[progress.moves - 1]?).isSome = _
  rw [if_neg (Nat.ne_of_gt h), Bool.eq_iff_iff, isSome_getElem?, decide_eq_true_iff]
  omega

/-- An operation on the cursor is one on its progress. -/
theorem perform_cursor (op : Operation) :
    (progress.cursor.perform op).2 = (progress.after op).cursor := by
  cases op with
  | moveNext => exact progress.moveNext_cursor
  | load text =>
    show (progress.cursor.load text).2 = (progress.after (.load text)).cursor
    rcases hs : scan text with e | tokens
    · rw [after_load_error progress hs, load, hs]
    · rw [after_load_ok progress hs, load, hs]
      rfl
  | _ => rfl

/-- An idle operation changes nothing. -/
theorem after_of_idle {op : Operation} (h : op.Idle) : progress.after op = progress := by
  cases op with
  | moveNext => exact h.elim
  | load text =>
    rcases hs : scan text with e | tokens
    · exact progress.after_load_error hs
    · exact absurd hs (h tokens)
  | _ => rfl

/-! ### Any number of operations -/

/-- Operations on the cursor are operations on its progress. -/
theorem run_cursor (ops : List Operation) :
    progress.cursor.run ops = (progress.afterAll ops).cursor := by
  induction ops generalizing progress with
  | nil => rfl
  | cons op ops ih =>
    show (progress.cursor.perform op).2.run ops = ((progress.after op).afterAll ops).cursor
    rw [perform_cursor, ih]

theorem afterAll_append (ops others : List Operation) :
    progress.afterAll (ops ++ others) = (progress.afterAll ops).afterAll others :=
  List.foldl_append

theorem afterAll_of_idle {ops : List Operation} (h : ∀ op ∈ ops, op.Idle) :
    progress.afterAll ops = progress := by
  induction ops with
  | nil => rfl
  | cons op ops ih =>
    obtain ⟨hop, hops⟩ := List.forall_mem_cons.1 h
    show (progress.after op).afterAll ops = progress
    rw [after_of_idle _ hop, ih hops]

end Progress

namespace Cursor

/-- The cursor is a new one, in front of these tokens: it has none, or those of a query. -/
inductive Opens : List Token → Cursor → Prop
  | empty : Opens [] {}
  | query {text : String} {tokens : List Token} {cursor : Cursor} (hs : scan text = .ok tokens)
      (hc : ofQuery text = .ok cursor) : Opens tokens cursor

theorem Opens.eq_ofTokens {tokens : List Token} {cursor : Cursor} (h : Opens tokens cursor) :
    cursor = ofTokens tokens := by
  cases h with
  | empty => rfl
  | query hs hc =>
    rw [ofQuery, hs] at hc
    exact (Except.ok.inj hc).symm

/-- **A cursor shows two of its tokens, and which ones is a matter of counting moves.** After `k`
moves since the last of `n` tokens were loaded, the lookahead is the `k`-th token and the token read
last is the one before it; the one behind the lookahead can be glimpsed. The last move said whether
there are as many tokens as moves. What is idle changes nothing, and the parser reads the tokens to
come. -/
theorem run_slots {start : List Token} {cursor : Cursor} (h : Opens start cursor)
    (ops : List Operation) :
    let now := cursor.run ops
    let progress := Progress.afterAll ⟨start, 0⟩ ops
    let tokens := progress.tokens
    let n := tokens.length
    let k := progress.moves
    now.lookahead = (if k = 0 then none else tokens[k - 1]?) ∧
      now.token = (if k < 2 then none else tokens[k - 2]?) ∧
      now.glimpse = tokens[min k n]? ∧
      (∀ before idle, ops = before ++ .moveNext :: idle → (∀ op ∈ idle, op.Idle) →
        ((cursor.run before).perform .moveNext).1 = .moved (decide (k ≤ n))) ∧
      (∀ op : Operation, op.Idle → (now.perform op).2 = now) ∧
      now.parse = parseTokens (tokens.drop (min k n)) := by
  intro now progress tokens n k
  have hrun : ∀ ops, cursor.run ops = (Progress.afterAll ⟨start, 0⟩ ops).cursor := by
    intro ops
    rw [h.eq_ofTokens, ← Progress.cursor_start, Progress.run_cursor]
  have hnow : now = progress.cursor := hrun ops
  refine ⟨by rw [hnow]; rfl, by rw [hnow]; rfl, ?_, ?_, ?_, ?_⟩
  · rw [hnow, ← List.head?_drop, ← List.drop_eq_drop_min]
    rfl
  · intro before idle hops hidle
    have hprogress : progress = (Progress.afterAll ⟨start, 0⟩ before).after .moveNext := by
      show Progress.afterAll ⟨start, 0⟩ ops = _
      rw [hops, Progress.afterAll_append]
      exact Progress.afterAll_of_idle _ hidle
    have hmoved : 0 < k := by
      show 0 < progress.moves
      rw [hprogress]
      exact Nat.succ_pos _
    rw [hrun before]
    show Answer.moved (hasNext (moveNext _)) = _
    rw [Progress.moveNext_cursor, ← hprogress, Progress.hasNext_cursor progress hmoved]
  · intro op hop
    rw [hnow, Progress.perform_cursor, Progress.after_of_idle _ hop]
  · rw [hnow, ← List.drop_eq_drop_min]
    rfl

/-- Three moves among two tokens, with a text that has no tokens in between. -/
theorem run_slots_past_end :
    let tokens : List Token := [⟨.identifier, "a", 0⟩, ⟨.identifier, "b", 2⟩]
    let ops : List Operation := [.moveNext, .load ";", .moveNext, .moveNext]
    let now := (ofTokens tokens).run ops
    Opens tokens (ofTokens tokens) ∧ Operation.Idle (.load ";") ∧ now.lookahead = none ∧
      now.token = some ⟨.identifier, "b", 2⟩ ∧ now.glimpse = none ∧
      (((ofTokens tokens).run (ops.take 3)).perform .moveNext).1 = .moved false ∧
      (now.perform (.load ";")).2 = now ∧ now.parse = .ok [] := by
  intro tokens ops now
  have hscan : scan "a b" = .ok tokens := by
    set_option maxRecDepth 2000 in cbv
  have hfail : scan ";" = .error (.unexpected ';' 0) := by
    set_option maxRecDepth 2000 in cbv
  have hopens : Opens tokens (ofTokens tokens) := .query hscan (by rw [ofQuery, hscan]; rfl)
  have hidle : Operation.Idle (.load ";") := by
    intro others ho
    rw [hfail] at ho
    cases ho
  have hprogress : Progress.afterAll ⟨tokens, 0⟩ ops = ⟨tokens, 3⟩ := by
    show (((Progress.mk tokens 1).after (.load ";")).after .moveNext).after .moveNext = _
    rw [Progress.after_load_error _ hfail]
    rfl
  obtain ⟨hlookahead, htoken, hglimpse, hmoved, hkeeps, hparse⟩ := run_slots hopens ops
  rw [hprogress] at hlookahead htoken hglimpse hmoved hparse
  exact ⟨hopens, hidle, hlookahead, htoken, hglimpse, hmoved (ops.take 3) [] rfl (by simp),
    hkeeps _ hidle, hparse⟩

end Cursor
end NestedQuery
