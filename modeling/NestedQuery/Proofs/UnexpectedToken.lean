/-
# The token that a syntax error names

The token of a syntax error is the first one that no query goes on with
(`parse_unexpected`). The text before it, or the whole text if the error names
no token, can be completed to a query. And every text that has the same tokens
up to that one has the same error.

The former is carried over from tokens to texts by cutting a text between two
of its tokens: with a blank behind the cut, what is before it is scanned as
before (`scanFrom_cut`), and the words of the completion are scanned behind
it. That the places of tokens ascend makes the token at a place unique
(`token_unique`).

Key theorems: `scanFrom_cut`, `token_unique`, `parse_unexpected`.
-/
import Mathlib.Data.List.Permutation
import NestedQuery.Proofs.Layout
import NestedQuery.Proofs.ViablePrefix.Entities

namespace NestedQuery

open Text NestedQuery.Parser

/-! ### Cutting a text -/

/-- A text is cut in front of the first token of `us`, or at its end if there is none. -/
theorem scanFrom_cut {p : Nat} {cs : List Char} {ts us : List Token}
    (h : scanFrom p cs = .ok (ts ++ us)) :
    ∃ before behind, cs = before ++ behind ∧ Scans p (before ++ [' ']) ts ∧
      (us = [] → behind = []) ∧ ∀ token ∈ us.head?, token.position = p + before.length := by
  obtain ⟨before, behind, hcs, hlayout, hend, hposition⟩ := (Layout.of_scanFrom h).cut
  exact ⟨before, behind, hcs, hlayout.scans_spaced, hend, hposition⟩

/-! ### The places of tokens -/

/-- The tokens before the one at a place are those at the places before. -/
theorem eq_takeWhile_position {before behind : List Token} {token : Token}
    (h : (before ++ token :: behind).Pairwise fun s t => s.position < t.position) :
    before = (before ++ token :: behind).takeWhile (·.position < token.position) := by
  have hlt : ∀ t ∈ before, decide (t.position < token.position) = true := fun t ht =>
    decide_eq_true ((List.pairwise_append.1 h).2.2 t ht token List.mem_cons_self)
  rw [List.takeWhile_append_of_pos hlt]
  simp

/-- A text has one token at most at a place. -/
theorem token_unique {text : String} {before before' behind behind' : List Token}
    {token token' : Token} (h : scan text = .ok (before ++ token :: behind))
    (h' : scan text = .ok (before' ++ token' :: behind'))
    (hp : token.position = token'.position) : before = before' ∧ token = token' := by
  have he : before ++ token :: behind = before' ++ token' :: behind' := by
    rw [h] at h'
    exact Except.ok.inj h'
  have hbefore : before = before' := by
    rw [eq_takeWhile_position (Layout.of_scanFrom h).ascending.1,
      eq_takeWhile_position (Layout.of_scanFrom h').ascending.1, he, hp]
  subst hbefore
  exact ⟨rfl, (List.cons.inj (List.append_cancel_left he)).1⟩

/-! ### Completions -/

theorem scans_filler (filler : Filler) (p : Nat) :
    Scans p (spaced filler.text.toList) [⟨filler.kind, filler.text, p⟩] := by
  cases filler with
  | name => exact scans_identifier (by decide) p
  | colon => exact scans_punctuation rfl p
  | number => exact Scans.spaced (spelling_toDigits (by decide : 0 < wordSize))
  | closing => exact scans_punctuation rfl p

theorem scans_fillers (fillers : List Filler) (p : Nat) :
    ∃ cs words, Scans p cs words ∧ Fill fillers words := by
  induction fillers generalizing p with
  | nil => exact ⟨[], [], Scans.nil p, .nil⟩
  | cons filler fillers ih =>
    obtain ⟨cs, words, hs, hw⟩ := ih (p + (spaced filler.text.toList).length)
    exact ⟨_, _, (scans_filler filler p).append hs, .cons ⟨rfl, rfl⟩ hw⟩

/-- If words complete the tokens before a cut, characters complete the text before it. -/
theorem exists_completion {before : List Char} {ts : List Token} {fillers : List Filler}
    (hs : Scans 0 (before ++ [' ']) ts)
    (hc : ∀ words, Fill fillers words → SyntaxOk (parseTokens (ts ++ words))) :
    ∃ more, more ≠ "" ∧ SyntaxOk (parse (String.ofList before ++ more)) := by
  obtain ⟨cs, words, hwords, hfill⟩ := scans_fillers fillers (0 + (before ++ [' ']).length)
  have hscan : scan (String.ofList before ++ String.ofList (' ' :: cs)) = .ok (ts ++ words) := by
    rw [scan, String.toList_append, String.toList_ofList, String.toList_ofList, List.append_cons]
    exact (hs.append hwords).scanFrom_eq
  refine ⟨String.ofList (' ' :: cs), by simp, ?_⟩
  rw [parse_of_scan hscan]
  exact hc words hfill

/-! ### Syntax errors -/

/-- **The token of a syntax error is the first one that no query goes on with.** What is before it
can be completed, and every text whose tokens are the same up to that one has the same error. If
the end of the text is at fault, all of it can be completed. -/
theorem parse_unexpected {text : String} {e : SyntaxError}
    (h : parse text = .error (.unexpected e)) :
    (∀ found ∈ e.found,
      (∃ more, SyntaxOk (parse (String.ofList (text.toList.take found.position) ++ more))) ∧
      (∃ before token behind, scan text = .ok (before ++ token :: behind) ∧
        token.text = found.text ∧ token.position = found.position) ∧
      ∀ before token behind, scan text = .ok (before ++ token :: behind) →
        token.position = found.position →
          ∀ other behind', scan other = .ok (before ++ token :: behind') →
            parse other = .error (.unexpected e)) ∧
    (e.found = none → ∃ more, more ≠ "" ∧ SyntaxOk (parse (text ++ more))) := by
  obtain ⟨tokens, hscan, hparse⟩ : ∃ tokens, scan text = .ok tokens ∧
      parseTokens tokens = .error (.unexpected e) := by
    unfold parse at h
    split at h
    · cases h
    · next tokens hs => exact ⟨tokens, hs, h⟩
  obtain ⟨ts, us, rfl, hfound, hstop, fillers, -, hc⟩ := parseTokens_unexpected hparse
  obtain ⟨before, behind, htext, hs, hend, hposition⟩ := scanFrom_cut hscan
  obtain ⟨more, hne, hmore⟩ := exists_completion hs hc
  constructor
  · intro found hf
    rw [hfound] at hf
    obtain ⟨token, ht, rfl⟩ := Option.map_eq_some_iff.1 hf
    obtain ⟨rest, rfl⟩ := List.head?_eq_some_iff.1 ht
    refine ⟨⟨more, ?_⟩, ⟨ts, token, rest, hscan, rfl, rfl⟩, ?_⟩
    · have htake : text.toList.take token.position = before := by
        rw [hposition token rfl, htext, Nat.zero_add, List.take_left]
      rw [htake]
      exact hmore
    · intro before' token' behind' hscan' hp other rest' hother
      obtain ⟨rfl, rfl⟩ := token_unique hscan' hscan hp
      rw [parse_of_scan hother]
      exact hstop _ rfl
  · intro hnone
    have hus : us = [] := by
      rw [hfound, Option.map_eq_none_iff] at hnone
      exact List.head?_eq_none_iff.1 hnone
    have hbefore : String.ofList before = text := by
      rw [← String.ofList_toList (s := text), htext, hend hus, List.append_nil]
    rw [hbefore] at hmore
    exact ⟨more, hne, hmore⟩

/-- A word cannot stand where a limit has its count, and an entity is missing behind a comma at the
end. -/
theorem parse_unexpected_limit :
    let word : ParseError :=
      .unexpected ⟨.oneOf [.integer], some ⟨"b", 8⟩, some (.limitOf "a")⟩
    let missing : ParseError := .unexpected ⟨.oneOf [.identifier], none, some .entity⟩
    parse "a|limit:b" = .error word ∧ (∃ more, SyntaxOk (parse ("a|limit:" ++ more))) ∧
      parse "a|limit:b,c" = .error word ∧
      parse "a," = .error missing ∧ ∃ more, more ≠ "" ∧ SyntaxOk (parse ("a," ++ more)) := by
  intro word missing
  have hword : parse "a|limit:b" = .error word := by
    set_option maxRecDepth 2000 in cbv
  have hmissing : parse "a," = .error missing := by
    set_option maxRecDepth 2000 in cbv
  let before : List Token :=
    [⟨.identifier, "a", 0⟩, ⟨.pipe, "|", 1⟩, ⟨.identifier, "limit", 2⟩, ⟨.colon, ":", 7⟩]
  let more : List Token := [⟨.comma, ",", 9⟩, ⟨.identifier, "c", 10⟩]
  have hscan : scan "a|limit:b" = .ok (before ++ [⟨.identifier, "b", 8⟩]) := by
    set_option maxRecDepth 2000 in cbv
  have hother : scan "a|limit:b,c" = .ok (before ++ ⟨.identifier, "b", 8⟩ :: more) := by
    set_option maxRecDepth 2000 in cbv
  have htake : String.ofList ("a|limit:b".toList.take 8) = "a|limit:" := rfl
  obtain ⟨hcomplete, -, hsame⟩ := (parse_unexpected hword).1 ⟨"b", 8⟩ rfl
  rw [htake] at hcomplete
  exact ⟨hword, hcomplete, hsame before _ [] hscan rfl _ more hother, hmissing,
    (parse_unexpected hmissing).2 rfl⟩

end NestedQuery
