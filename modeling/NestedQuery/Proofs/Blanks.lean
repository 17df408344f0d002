/-
# Blanks between tokens

Between two tokens, in front of the first one and behind the last one, any
number of blanks may be put in: none of the tokens grows, falls apart or gets
lost, for what is before the place is scanned as if the text ended there
(`TakenApart.cut`). The tokens behind the place stand further behind by the
number of blanks, and the parser takes no notice unless a point is torn from
the name before it. So the text says the same query, or it has the same error
at a place further behind (`parse_respaced`).

Key definitions: `Between`, `makeRoom`, `insertBlanks`, `Respaced`.
Key theorems: `TakenApart.cut`, `Between.layout`, `parse_respaced`.
-/
import Mathlib.Data.List.Chain
import Mathlib.Data.List.Permutation
import NestedQuery.Proofs.Places

namespace NestedQuery

open Text Grammar

/-! ### Cutting a text between tokens -/

namespace TakenApart

variable {p n : Nat} {cs lead : List Char} {before behind pieces : List Piece}

/-- Blanks in front of the first token may be left out. -/
theorem drop_lead (h : TakenApart p cs lead pieces) (hn : n ≤ lead.length) :
    TakenApart (p + n) (cs.drop n) (lead.drop n) pieces := by
  refine ⟨?_, fun c hc => h.lead_blank c (List.mem_of_mem_drop hc), h.gap_blank, h.written, ?_,
    h.maximal⟩
  · rw [h.chars, List.drop_append_of_le_length hn]
  · intro before piece behind hsplit
    rw [h.placed before piece behind hsplit, List.length_append, List.length_append,
      List.length_drop]
    omega

/-- What is before a place between two tokens is laid out alone, and so is what is behind it. -/
theorem cut (h : TakenApart p cs lead (before ++ behind)) (hn : n ≤ cs.length)
    (hbefore : ∀ piece ∈ before, piece.token.position + piece.written.length ≤ p + n)
    (hbehind : ∀ piece ∈ behind, p + n ≤ piece.token.position) :
    Layout p (cs.take n) (before.map Piece.token) ∧
      Layout (p + n) (cs.drop n) (behind.map Piece.token) := by
  induction before generalizing p cs lead n with
  | nil =>
    rw [List.nil_append] at h
    -- the place lies in the blanks that the text begins with
    have hlead : n ≤ lead.length := by
      cases behind with
      | nil => simpa [h.chars] using hn
      | cons piece behind =>
        have := hbehind piece List.mem_cons_self
        rw [h.head_position] at this
        omega
    refine ⟨.done fun c hc => h.lead_blank c ?_, (h.drop_lead hlead).layout⟩
    rw [h.chars, List.take_append_of_le_length hlead] at hc
    exact List.mem_of_mem_take hc
  | cons piece before ih =>
    rw [List.cons_append] at h
    obtain ⟨hfirst, hothers⟩ := List.forall_mem_cons.1 hbefore
    rw [h.head_position] at hfirst
    obtain ⟨m, rfl⟩ : ∃ m, n = lead.length + (piece.written.length + m) :=
      ⟨n - (lead.length + piece.written.length), by omega⟩
    have hplace : p + (lead.length + (piece.written.length + m)) =
        p + lead.length + piece.written.length + m := by omega
    have hchars : cs = lead ++ (piece.written ++
        (piece.gap ++ (before ++ behind).flatMap Piece.chars)) := by
      rw [h.chars, List.flatMap_cons, Piece.chars, List.append_assoc]
    have hends := h.head_ends
    have htail := h.tail
    rw [hchars] at hn ⊢
    rw [hplace] at hothers hbehind ⊢
    generalize piece.gap ++ (before ++ behind).flatMap Piece.chars = rest at *
    obtain ⟨htake, hdrop⟩ := ih htail (by simpa using hn) hothers hbehind
    rw [List.take_length_add_append, List.take_length_add_append, List.drop_length_add_append,
      List.drop_length_add_append]
    rw [← List.take_append_drop m rest] at hends
    exact ⟨h.token_layout hends.of_append htake, hdrop⟩

end TakenApart

/-- The place `k` of a text, between the tokens of these pieces. -/
structure Between (text : String) (k : Nat) (before behind : List Piece) : Prop where
  bounded : k ≤ text.length
  takenApart : ∃ lead, TakenApart 0 text.toList lead (before ++ behind)
  passed : ∀ piece ∈ before, piece.token.position + piece.written.length ≤ k
  ahead : ∀ piece ∈ behind, k ≤ piece.token.position

/-- The tokens of these pieces. -/
def tokensOf (pieces : List Piece) : List Token := pieces.map Piece.token

theorem tokensOf_append (before behind : List Piece) :
    tokensOf (before ++ behind) = tokensOf before ++ tokensOf behind := List.map_append

/-- Where a place goes if `n` characters are put in at the place `k`. -/
def makeRoom (k n p : Nat) : Nat := if p < k then p else n + p

theorem makeRoom_zero (k : Nat) : makeRoom k 0 = id := by
  funext p
  simp [makeRoom]

/-- The text with these characters put in at the place `k`. -/
def insertBlanks (text : String) (k : Nat) (blanks : List Char) : String :=
  String.ofList (text.toList.take k ++ (blanks ++ text.toList.drop k))

theorem insertBlanks_nil (text : String) (k : Nat) : insertBlanks text k [] = text := by
  rw [insertBlanks, List.nil_append, List.take_append_drop, String.ofList_toList]

theorem map_move_id (tokens : List Token) : tokens.map (Token.move id) = tokens :=
  List.map_id tokens

/-! ### Putting blanks in -/

namespace Between

variable {text : String} {k n : Nat} {before behind : List Piece} {blanks : List Char}

theorem scan_eq (h : Between text k before behind) :
    scan text = .ok (tokensOf (before ++ behind)) := by
  obtain ⟨lead, ht⟩ := h.takenApart
  exact ht.layout.scanFrom_eq

/-- The tokens before the place stay, and those behind it go further. -/
theorem move_makeRoom (h : Between text k before behind) (n : Nat) :
    (∀ t ∈ tokensOf before, t.move (makeRoom k n) = t) ∧
      ∀ t ∈ tokensOf behind, t.move (makeRoom k n) = t.move (n + ·) := by
  obtain ⟨lead, ht⟩ := h.takenApart
  constructor
  · intro t hmem
    obtain ⟨piece, hpiece, rfl⟩ := List.mem_map.1 hmem
    have hpos := (ht.written piece (List.mem_append_left _ hpiece)).spelling.length_pos
    have hpassed := h.passed piece hpiece
    have hlt : piece.token.position < k := by omega
    rw [Token.move, makeRoom, if_pos hlt]
  · intro t hmem
    obtain ⟨piece, hpiece, rfl⟩ := List.mem_map.1 hmem
    rw [Token.move, makeRoom, if_neg (Nat.not_lt.2 (h.ahead piece hpiece))]
    rfl

theorem map_move_makeRoom (h : Between text k before behind) (n : Nat) :
    (tokensOf (before ++ behind)).map (Token.move (makeRoom k n)) =
      tokensOf before ++ (tokensOf behind).map (Token.move (n + ·)) := by
  obtain ⟨hbefore, hbehind⟩ := h.move_makeRoom n
  rw [tokensOf_append, List.map_append, List.map_congr_left hbehind, List.map_congr_left hbefore,
    List.map_id']

theorem scan_insertBlanks (h : Between text k before behind) (hb : Blank blanks) :
    scan (insertBlanks text k blanks) =
      .ok ((tokensOf (before ++ behind)).map (Token.move (makeRoom k blanks.length))) := by
  by_cases hnil : blanks = []
  · subst hnil
    rw [insertBlanks_nil, List.length_nil, makeRoom_zero, map_move_id]
    exact h.scan_eq
  obtain ⟨c, cs, rfl⟩ := List.exists_cons_of_ne_nil hnil
  obtain ⟨lead, ht⟩ := h.takenApart
  have hk : k ≤ text.toList.length := by rw [String.length_toList]; exact h.bounded
  obtain ⟨hbefore, hbehind⟩ := ht.cut (n := k) hk (by simpa using h.passed) (by simpa using h.ahead)
  have hplace :
      0 + (text.toList.take k).length + (c :: cs).length = (c :: cs).length + (0 + k) := by
    rw [List.length_take_of_le hk]
    omega
  have hrest : Layout (0 + (text.toList.take k).length) (c :: cs ++ text.toList.drop k)
      ((tokensOf behind).map (Token.move ((c :: cs).length + ·))) :=
    .blanks hb (hplace ▸ hbehind.shift (c :: cs).length)
  have hsep : ∀ d ∈ (c :: cs ++ text.toList.drop k).head?, Separates d :=
    (separates_of_isBlank (hb c List.mem_cons_self)).head
  rw [h.map_move_makeRoom, scan, insertBlanks, String.toList_ofList]
  exact (hbefore.append hrest hsep).scanFrom_eq

/-- A point is torn from a name only if the blanks are put in front of a point. -/
theorem keepsJoined (h : Between text k before behind)
    (hd : ∀ piece ∈ behind.head?, piece.token.kind ≠ .dot) (n : Nat) :
    KeepsJoined (makeRoom k n) (tokensOf (before ++ behind)) := by
  obtain ⟨hbefore, hbehind⟩ := h.move_makeRoom n
  rw [tokensOf_append]
  refine List.isChain_append.2 ⟨?_, ?_, ?_⟩
  · refine (List.pairwise_of_forall_mem_list fun s hs t ht _ => ?_).isChain
    rw [hbefore s hs, hbefore t ht]
  · refine (keepsJoined_add n _).imp_of_mem_imp fun s t hs ht hj => ?_
    rw [hbehind s hs, hbehind t ht]
    exact hj
  · intro s _ t ht _
    rw [tokensOf, List.head?_map] at ht
    obtain ⟨piece, hpiece, rfl⟩ := Option.map_eq_some_iff.1 ht
    exact iff_of_false (fun hj => hd piece hpiece hj.1) fun hj => hd piece hpiece hj.1

theorem parse_insertBlanks (h : Between text k before behind)
    (hd : ∀ piece ∈ behind.head?, piece.token.kind ≠ .dot) (hb : Blank blanks) :
    parse (insertBlanks text k blanks) =
      (parse text).mapError (ParseError.move (makeRoom k blanks.length)) := by
  rw [parse_of_scan (h.scan_insertBlanks hb), parse_of_scan h.scan_eq,
    parseTokens_map (h.keepsJoined hd _)]

end Between

/-! ### Other blanks -/

/-- A name and a point are joined exactly if there is no gap between them. -/
theorem TakenApart.joins_iff {p : Nat} {cs lead : List Char} {piece next : Piece}
    {pieces : List Piece} (h : TakenApart p cs lead (piece :: next :: pieces))
    (hname : piece.token.kind ∈ Parser.nameKinds) :
    Joins piece.token next.token ↔ next.token.kind = .dot ∧ piece.gap = [] := by
  have hstring : piece.token.kind ≠ .string := by
    rintro hs
    rw [hs] at hname
    exact absurd hname (by decide)
  have hstop : piece.token.stop = p + lead.length + piece.written.length := by
    rw [← ((h.written piece List.mem_cons_self).verbatim hstring).2, h.head_position]
  have hnext : next.token.position = piece.token.stop + piece.gap.length := by
    rw [h.tail.head_position, hstop]
  unfold Joins
  rw [hnext, Nat.add_eq_left, List.length_eq_zero_iff]

/-- The same tokens with other gaps. In front of a point, there is no gap where there was none,
and one where there was one. -/
inductive Respaced : List Piece → List Piece → Prop
  | nil : Respaced [] []
  | cons {piece other : Piece} {pieces others : List Piece}
      (hk : other.token.kind = piece.token.kind) (ht : other.token.text = piece.token.text)
      (hg : ∀ next ∈ pieces.head?, next.token.kind = .dot → (other.gap = [] ↔ piece.gap = []))
      (h : Respaced pieces others) : Respaced (piece :: pieces) (other :: others)

theorem Respaced.moved {pieces others : List Piece} (hr : Respaced pieces others)
    {p p' : Nat} {cs cs' lead lead' : List Char} (h : TakenApart p cs lead pieces)
    (h' : TakenApart p' cs' lead' others) :
    Moved (fun _ _ => True) (tokensOf pieces) (tokensOf others) := by
  induction hr generalizing p p' cs cs' lead lead' with
  | nil => exact .nil
  | @cons piece other pieces others hk ht hg hr ih =>
    refine .cons hk ht trivial ?_ (ih h.tail h'.tail)
    intro hname dot hdot dot' hdot'
    cases hr with
    | nil => cases hdot
    | @cons next next' pieces others hk' ht' hg' hr =>
      cases hdot
      cases hdot'
      rw [h.joins_iff hname, h'.joins_iff (hk ▸ hname), hk']
      exact and_congr_right fun hd => (hg next rfl hd).symm

/-- **A query may be spaced at will.** Blanks between two tokens, in front of all or behind all
shift the tokens behind them. If the next token is no point, the text says the same query, or has
the same error, shifted alike. So texts of the same tokens say the same query, whatever the gaps
are that do not stand in front of a point; in particular if the gaps around points are the same. -/
theorem parse_respaced :
    (∀ {text : String} {tokens : List Token} {k : Nat} {before behind : List Piece}
      {blanks : List Char}, scan text = .ok tokens → Between text k before behind →
      (∀ piece ∈ behind.head?, piece.token.kind ≠ .dot) → Blank blanks →
      scan (insertBlanks text k blanks) =
          .ok (tokens.map (Token.move (makeRoom k blanks.length))) ∧
        parse (insertBlanks text k blanks) =
          (parse text).mapError (ParseError.move (makeRoom k blanks.length))) ∧
    ∀ {text other : String} {lead lead' : List Char} {pieces pieces' : List Piece},
      TakenApart 0 text.toList lead pieces → TakenApart 0 other.toList lead' pieces' →
      Respaced pieces pieces' → ∀ query, parse text = .ok query ↔ parse other = .ok query := by
  constructor
  · intro text tokens k before behind blanks hs h hd hb
    rw [h.scan_eq] at hs
    cases hs
    exact ⟨h.scan_insertBlanks hb, h.parse_insertBlanks hd hb⟩
  · intro text other lead lead' pieces pieces' h h' hr query
    rw [parse_of_scan h.layout.scanFrom_eq, parse_of_scan h'.layout.scanFrom_eq]
    obtain ⟨q, hx, hy⟩ | ⟨e, e', hx, hy, -⟩ := parseTokens_moved (hr.moved h h')
    · rw [tokensOf] at hx hy
      rw [hx, hy]
    · rw [tokensOf] at hx hy
      rw [hx, hy]
      simp

/-- Two blanks in front of a comma shift an alias that is doubled, and blanks around a path do not
matter. -/
theorem parse_respaced_doubled :
    parse "a  ,a" = .error (.duplicateAlias "a" 4) ∧
      ∀ query, parse "a.b" = .ok query ↔ parse "\ta.b " = .ok query := by
  have word : ∀ c : Char, IsWord [c] → Kind.ofWord (String.ofList [c]) = .identifier →
      ∀ p, (⟨.identifier, String.ofList [c], p⟩ : Token).WrittenAs [c] := by
    intro c hc hk p
    refine Token.writtenAs_of_spelling ?_
    rw [← hk, String.toList_ofList]
    exact .word hc
  have sign : ∀ (c : Char) (kind : Kind), Kind.punctuation? c = some kind →
      ∀ p, (⟨kind, String.ofList [c], p⟩ : Token).WrittenAs [c] := by
    intro c kind hc p
    refine Token.writtenAs_of_spelling ?_
    rw [String.toList_ofList]
    exact .punctuation hc
  have a := word 'a' (by decide) rfl
  have b := word 'b' (by decide) rfl
  have comma := sign ',' .comma rfl
  have dot := sign '.' .dot rfl
  have ended : ∀ (c : Char) {rest : List Char}, isWordPart c = false →
      Maximal .identifier (c :: rest) := by
    intro c rest hc
    refine maximal_iff_ends.2 ?_
    rintro _ ⟨⟩
    exact hc
  have last : Maximal .identifier [] := maximal_iff_ends.2 (by rintro _ ⟨⟩)
  have tab : Blank ['\t'] := by decide
  have space : Blank [' '] := by decide
  have doubled : TakenApart 0 "a,a".toList [] ([⟨⟨.identifier, "a", 0⟩, ['a'], []⟩] ++
      [⟨⟨.comma, ",", 1⟩, [','], []⟩, ⟨⟨.identifier, "a", 2⟩, ['a'], []⟩]) :=
    .token blank_nil rfl (a 0) (ended ',' (by decide)) <|
      .token blank_nil rfl (comma 1) (maximal_iff_ends.2 trivial) <|
        .token blank_nil rfl (a 2) last <| .done blank_nil
  have path : TakenApart 0 "a.b".toList [] [⟨⟨.identifier, "a", 0⟩, ['a'], []⟩,
      ⟨⟨.dot, ".", 1⟩, ['.'], []⟩, ⟨⟨.identifier, "b", 2⟩, ['b'], []⟩] :=
    .token blank_nil rfl (a 0) (ended '.' (by decide)) <|
      .token blank_nil rfl (dot 1) (maximal_iff_ends.2 trivial) <|
        .token blank_nil rfl (b 2) last <| .done blank_nil
  have spaced : TakenApart 0 "\ta.b ".toList ['\t'] [⟨⟨.identifier, "a", 1⟩, ['a'], []⟩,
      ⟨⟨.dot, ".", 2⟩, ['.'], []⟩, ⟨⟨.identifier, "b", 3⟩, ['b'], [' ']⟩] :=
    .token tab rfl (a 1) (ended '.' (by decide)) <|
      .token blank_nil rfl (dot 2) (maximal_iff_ends.2 trivial) <|
        .token blank_nil rfl (b 3) (ended ' ' (by decide)) <| .done space
  have hparse : parse "a,a" = .error (.duplicateAlias "a" 2) := by
    set_option maxRecDepth 2000 in cbv
  have between : Between "a,a" 1 _ _ := ⟨by decide, ⟨[], doubled⟩, by decide, by decide⟩
  have blanks : Blank [' ', ' '] := by decide
  have hinsert := parse_respaced.1 doubled.layout.scanFrom_eq between (by decide) blanks
  rw [hparse] at hinsert
  exact ⟨hinsert.2, parse_respaced.2 path spaced
    (.cons rfl rfl (by decide) <| .cons rfl rfl (by decide) <| .cons rfl rfl (by decide) .nil)⟩

end NestedQuery
