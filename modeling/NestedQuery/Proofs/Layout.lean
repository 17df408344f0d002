/-
# Texts as written tokens

A text that splits into tokens is blanks, a written token, blanks, and so on
to its end, where every written token is as long as it can be. No character
is left out, read twice or given to another token, and there is no other way
to take the text apart: `scanFrom_eq_ok_iff` says so by recursion along the
text, `scan_eq_ok_iff_pieces` with all places and all pieces at once.

What has been laid out can be joined where nothing grows together
(`Layout.append`), cut between two tokens (`Layout.cut`) and put at another
place (`Layout.shift`).

Key definitions: `Blank`, `Layout`, `Token.WrittenAs`, `Maximal`, `Piece`,
`TakenApart`.
Key theorems: `scanFrom_eq_ok_iff`, `Layout.append`, `Layout.cut`,
`Layout.shift`, `Layout.ascending`, `scan_eq_ok_iff_pieces`.
-/
import NestedQuery.Proofs.Spelling

namespace NestedQuery

open Text

/-- Blanks and nothing else. -/
def Blank (cs : List Char) : Prop := ∀ c ∈ cs, isBlank c = true

instance (cs : List Char) : Decidable (Blank cs) :=
  decidable_of_iff (cs.all isBlank = true) List.all_eq_true

theorem blank_nil : Blank [] := List.forall_mem_nil _

theorem blank_append {cs ds : List Char} : Blank (cs ++ ds) ↔ Blank cs ∧ Blank ds :=
  List.forall_mem_append

/-- The scanner skips blanks. -/
theorem scanFrom_blanks {gap : List Char} (hb : Blank gap) (p : Nat) (rest : List Char) :
    scanFrom p (gap ++ rest) = scanFrom (p + gap.length) rest := by
  induction gap generalizing p with
  | nil => rfl
  | cons c gap ih =>
    obtain ⟨hc, hgap⟩ := List.forall_mem_cons.1 hb
    rw [List.cons_append, scanFrom_blank hc, ih hgap, List.length_cons, Nat.add_assoc,
      Nat.add_comm 1]

theorem Scans.blanks {gap : List Char} (hb : Blank gap) (p : Nat) : Scans p gap [] := by
  intro rest
  rw [scanFrom_blanks hb]
  cases scanFrom (p + gap.length) rest <;> rfl

/-- From the place `p` on, these characters are the tokens, each one written behind blanks and
not prolonged by what follows. -/
inductive Layout : Nat → List Char → List Token → Prop
  | done {p : Nat} {gap : List Char} (hb : Blank gap) : Layout p gap []
  | token {p : Nat} {gap w rest text : List Char} {kind : Kind} {tokens : List Token}
      (hb : Blank gap) (hs : Spelling w kind text) (he : Ends kind rest)
      (h : Layout (p + gap.length + w.length) rest tokens) :
      Layout p (gap ++ (w ++ rest)) (⟨kind, String.ofList text, p + gap.length⟩ :: tokens)

namespace Layout

variable {p : Nat} {cs ds gap : List Char} {ts us : List Token}

/-- Blanks may stand in front of a layout. -/
theorem blanks (hb : Blank gap) (h : Layout (p + gap.length) cs ts) : Layout p (gap ++ cs) ts := by
  cases h with
  | done hb' => exact .done (blank_append.2 ⟨hb, hb'⟩)
  | @token _ gap' w rest text kind tokens hb' hs he h =>
    have hplace : p + gap.length + gap'.length = p + (gap ++ gap').length := by
      rw [List.length_append, Nat.add_assoc]
    rw [hplace] at h ⊢
    rw [← List.append_assoc]
    exact .token (blank_append.2 ⟨hb, hb'⟩) hs he h

theorem blank_of_nil (h : Layout p cs []) : Blank cs := by
  cases h with
  | done hb => exact hb

/-- The tokens of a layout are those that the scanner finds. -/
theorem scanFrom_eq (h : Layout p cs ts) : scanFrom p cs = .ok ts := by
  induction h with
  | @done p gap hb =>
    have hnil := scanFrom_blanks hb p []
    rwa [List.append_nil, scanFrom] at hnil
  | token hb hs he _ ih =>
    rw [scanFrom_blanks hb, scanFrom_spelling hs he, ih]
    rfl

/-- The tokens that the scanner finds are laid out. -/
theorem of_scanFrom (h : scanFrom p cs = .ok ts) : Layout p cs ts := by
  fun_induction scanFrom p cs generalizing ts with
  | case1 =>
    cases h
    exact .done blank_nil
  | case2 p c cs hb ih =>
    have hc : Blank [c] := List.forall_mem_singleton.2 hb
    exact (ih h).blanks hc
  | case3 => cases h
  | case4 p c cs hb l hl ih =>
    obtain ⟨others, ho, rfl⟩ := map_eq_ok_iff.1 h
    obtain ⟨w, hs, hcs, he, hstop⟩ := spelling_of_lexeme hl
    have hrest := ih ho
    rw [hstop] at hrest
    rw [hcs]
    exact .token blank_nil hs he hrest

end Layout

/-- Scanning finds the tokens that the characters are laid out as, and fails if there are none. -/
theorem scanFrom_eq_ok_iff {p : Nat} {cs : List Char} {tokens : List Token} :
    scanFrom p cs = .ok tokens ↔ Layout p cs tokens :=
  ⟨Layout.of_scanFrom, Layout.scanFrom_eq⟩

/-! ### Joining layouts -/

/-- A character that prolongs no token: no part of a word, no digit and no point. -/
def Separates (c : Char) : Prop := isWordPart c = false ∧ c ≠ '.'

instance (c : Char) : Decidable (Separates c) := inferInstanceAs (Decidable (_ ∧ _))

theorem separates_of_isBlank {c : Char} (h : isBlank c = true) : Separates c := by
  refine ⟨not_isWordPart_of_isBlank h, ?_⟩
  rintro rfl
  exact absurd h (by decide)

namespace Separates

variable {c : Char}

theorem not_isDigit (h : Separates c) : c.isDigit = false := by
  rw [Bool.eq_false_iff]
  intro hd
  exact absurd (isWordPart_of_isDigit hd) (by simp [h.1])

theorem head {cs : List Char} (h : Separates c) : ∀ d ∈ (c :: cs).head?, Separates d := by
  rintro _ ⟨rfl⟩
  exact h

end Separates

theorem fraction?_eq_none_iff {cs : List Char} :
    fraction? cs = none ↔ ∀ d ds, cs = '.' :: d :: ds → d.isDigit = false := by
  unfold fraction?
  split
  · next d ds => cases hd : d.isDigit <;> simp [hd]
  · next h =>
    refine iff_of_true rfl ?_
    rintro d ds rfl
    exact (h d ds rfl).elim

/-- What does not prolong a token does not either with a separating character behind it. -/
theorem Ends.append {kind : Kind} {rest more : List Char} (h : Ends kind rest)
    (hm : ∀ c ∈ more.head?, Separates c) : Ends kind (rest ++ more) := by
  have head_append : ∀ {q : Char → Bool}, (∀ c, Separates c → q c = false) →
      (∀ c ∈ rest.head?, q c = false) → ∀ c ∈ (rest ++ more).head?, q c = false := by
    intro q hq hr c hc
    cases rest with
    | nil => exact hq c (hm c hc)
    | cons d rest => exact hr c hc
  have hword := head_append fun c hc => hc.1
  have hdigit := head_append fun c hc => hc.not_isDigit
  cases kind with
  | integer =>
    refine ⟨hdigit h.1, fraction?_eq_none_iff.2 ?_⟩
    intro d ds hd
    rcases rest with _ | ⟨c, _ | ⟨e, rest⟩⟩
    · exact absurd rfl (hm '.' (by rw [← List.nil_append more, hd]; rfl)).2
    · cases hd
      exact (hm d rfl).not_isDigit
    · cases hd
      exact fraction?_eq_none_iff.1 h.2 d rest rfl
  | float => exact hdigit h
  | identifier => exact hword h
  | asKeyword => exact hword h
  | nullKeyword => exact hword h
  | _ => trivial

/-- What does not prolong a token does not either if it is cut off. -/
theorem Ends.of_append {kind : Kind} {rest more : List Char} (h : Ends kind (rest ++ more)) :
    Ends kind rest := by
  have head : ∀ {q : Char → Bool}, (∀ c ∈ (rest ++ more).head?, q c = false) →
      ∀ c ∈ rest.head?, q c = false := by
    intro q hq c hc
    refine hq c ?_
    rw [List.head?_append, Option.mem_def.1 hc]
    rfl
  cases kind with
  | integer =>
    refine ⟨head h.1, fraction?_eq_none_iff.2 ?_⟩
    rintro d ds rfl
    exact fraction?_eq_none_iff.1 h.2 d (ds ++ more) rfl
  | float => exact head h
  | identifier => exact head h
  | asKeyword => exact head h
  | nullKeyword => exact head h
  | _ => trivial

namespace Layout

variable {p : Nat} {cs ds : List Char} {ts us : List Token}

/-- Two layouts are one if nothing grows together where they meet. -/
theorem append (h : Layout p cs ts) (h' : Layout (p + cs.length) ds us)
    (hd : ∀ c ∈ ds.head?, Separates c) : Layout p (cs ++ ds) (ts ++ us) := by
  induction h with
  | done hb => exact h'.blanks hb
  | @token p gap w rest text kind tokens hb hs he _ ih =>
    rw [List.append_assoc, List.append_assoc]
    refine .token hb hs (he.append hd) (ih ?_)
    rw [List.length_append, List.length_append] at h'
    simpa only [Nat.add_assoc] using h'

end Layout

/-! ### Cutting layouts -/

namespace Layout

variable {p : Nat} {cs : List Char} {ts us : List Token}

/-- A text is cut in front of the first token of `us`, or at its end if there is none. -/
theorem cut (h : Layout p cs (ts ++ us)) :
    ∃ before behind, cs = before ++ behind ∧ Layout p before ts ∧ (us = [] → behind = []) ∧
      ∀ token ∈ us.head?, token.position = p + before.length := by
  generalize htokens : ts ++ us = tokens at h
  induction h generalizing ts with
  | @done p gap hb =>
    obtain ⟨rfl, rfl⟩ := List.append_eq_nil_iff.1 htokens
    exact ⟨gap, [], by simp, .done hb, fun _ => rfl, by simp⟩
  | @token p gap w rest text kind tokens hb hs he _ ih =>
    rcases ts with _ | ⟨token, ts⟩
    · -- the cut is in front of this token
      rw [List.nil_append] at htokens
      subst htokens
      refine ⟨gap, w ++ rest, rfl, .done hb, fun hnil => (List.cons_ne_nil _ _ hnil).elim, ?_⟩
      rintro _ ⟨rfl⟩
      rfl
    · obtain ⟨rfl, hothers⟩ := List.cons.inj htokens
      obtain ⟨before, behind, rfl, hbefore, hend, hposition⟩ := ih hothers
      refine ⟨gap ++ (w ++ before), behind, by simp, .token hb hs he.of_append hbefore, hend, ?_⟩
      intro token ht
      rw [hposition token ht, List.length_append, List.length_append]
      omega

/-- With blanks behind it, a text is scanned as if it ended there. -/
theorem scans_blanks {gap : List Char} (h : Layout p cs ts) (hgap : Blank gap) (hne : gap ≠ []) :
    Scans p (cs ++ gap) ts := by
  obtain ⟨c, gap, rfl⟩ := List.exists_cons_of_ne_nil hne
  have hsep : Separates c := separates_of_isBlank (hgap c List.mem_cons_self)
  induction h with
  | @done p gap' hb => exact Scans.blanks (blank_append.2 ⟨hb, hgap⟩) p
  | @token p gap' w rest text kind tokens hb hs he _ ih =>
    have hends : ∀ more, Ends kind (rest ++ (c :: gap) ++ more) := by
      intro more
      rw [List.append_assoc]
      exact he.append hsep.head
    rw [List.append_assoc, List.append_assoc]
    exact (Scans.blanks hb p).append (.cons hs hends ih)

theorem scans_spaced (h : Layout p cs ts) : Scans p (cs ++ [' ']) ts := by
  have hspace : Blank [' '] := by decide
  exact h.scans_blanks hspace (List.cons_ne_nil _ _)

end Layout

/-- The token at another place. -/
def Token.move (f : Nat → Nat) (token : Token) : Token :=
  { token with position := f token.position }

/-- The same characters further behind are the same tokens further behind. -/
theorem Layout.shift {p : Nat} {cs : List Char} {ts : List Token} (n : Nat) (h : Layout p cs ts) :
    Layout (n + p) cs (ts.map (Token.move (n + ·))) := by
  induction h with
  | done hb => exact .done hb
  | token hb hs he _ ih =>
    rw [List.map_cons, Token.move]
    dsimp only
    rw [← Nat.add_assoc]
    rw [← Nat.add_assoc, ← Nat.add_assoc] at ih
    exact .token hb hs he ih

/-- A word in front of a layout, unless they grow together. -/
theorem Layout.word {p : Nat} {w : String} {cs : List Char} {ts : List Token} (hw : IsWord w.toList)
    (he : ∀ c ∈ cs.head?, isWordPart c = false) (h : Layout (p + w.length) cs ts) :
    Layout p (w.toList ++ cs) (⟨Kind.ofWord w, w, p⟩ :: ts) := by
  have hs := Spelling.word hw
  rw [String.ofList_toList] at hs
  rw [← String.length_toList] at h
  have hlayout := Layout.token blank_nil hs (ends_ofWord_iff.2 he) h
  rwa [String.ofList_toList] at hlayout

/-- No token is written with no characters. -/
theorem Spelling.length_pos {w text : List Char} {kind : Kind} (h : Spelling w kind text) :
    0 < w.length := by
  rw [List.length_pos_iff]
  rintro rfl
  generalize hw : ([] : List Char) = w at h
  cases h with
  | word hword =>
    subst hw
    obtain ⟨⟨c, hc, -⟩, -⟩ := hword
    cases hc
  | integer hd _ => exact hd.1 hw.symm
  | float _ _ => simp at hw
  | string _ _ => cases hw
  | punctuation _ => cases hw

/-- Tokens stand in the order in which they are written. -/
theorem Layout.ascending {p : Nat} {cs : List Char} {ts : List Token} (h : Layout p cs ts) :
    ts.Pairwise (fun s t => s.position < t.position) ∧ ∀ t ∈ ts, p ≤ t.position := by
  induction h with
  | done _ => exact ⟨.nil, List.forall_mem_nil _⟩
  | @token p gap w rest text kind tokens _ hs _ _ ih =>
    have hpos := hs.length_pos
    obtain ⟨hpairwise, hle⟩ := ih
    refine ⟨List.pairwise_cons.2 ⟨fun t ht => ?_, hpairwise⟩,
      List.forall_mem_cons.2 ⟨Nat.le_add_right _ _, fun t ht => ?_⟩⟩
    · have := hle t ht
      dsimp only
      omega
    · have := hle t ht
      omega

/-! ### Taking a text apart -/

/-- How a token is written: a string between quotes, with none of them unescaped inside, any other
token as its text. The words of the keywords are nothing else, and integers fit a 64-bit word. -/
structure Token.WrittenAs (token : Token) (w : List Char) : Prop where
  spelling : Spelling w token.kind token.text.toList
  verbatim : token.kind ≠ .string → w = token.text.toList ∧ token.position + w.length = token.stop
  quoted : token.kind = .string → ∃ quote body, (quote = '"' ∨ quote = '\'') ∧
    w = quote :: (body ++ [quote]) ∧ Content quote body token.text.toList
  asWord : token.kind = .asKeyword ↔ w = "as".toList
  nullWord : token.kind = .nullKeyword ↔ w = "null".toList
  bounded : token.kind = .integer → Numeral.value token.text.toList < wordSize

/-- What follows does not prolong a token of this kind. -/
structure Maximal (kind : Kind) (rest : List Char) : Prop where
  word : kind = .identifier ∨ kind = .asKeyword ∨ kind = .nullKeyword →
    ∀ c ∈ rest.head?, isWordPart c = false
  number : kind = .integer ∨ kind = .float → ∀ c ∈ rest.head?, c.isDigit = false
  fraction : kind = .integer → ∀ d ds, rest = '.' :: d :: ds → d.isDigit = false

theorem maximal_iff_ends {kind : Kind} {rest : List Char} : Maximal kind rest ↔ Ends kind rest := by
  constructor
  · intro h
    cases kind with
    | integer => exact ⟨h.number (.inl rfl), fraction?_eq_none_iff.2 (h.fraction rfl)⟩
    | float => exact h.number (.inr rfl)
    | identifier => exact h.word (.inl rfl)
    | asKeyword => exact h.word (.inr (.inl rfl))
    | nullKeyword => exact h.word (.inr (.inr rfl))
    | _ => trivial
  · intro h
    refine ⟨?_, ?_, ?_⟩
    · rintro (rfl | rfl | rfl) <;> exact h
    · rintro (rfl | rfl)
      · exact h.1
      · exact h
    · rintro rfl
      exact fraction?_eq_none_iff.1 h.2

/-! What is written tells the kind. -/

theorem Kind.ofWord_mem (word : String) :
    ofWord word ∈ [identifier, asKeyword, nullKeyword] := by
  unfold ofWord
  split
  · decide
  · split <;> decide

/-- Each keyword has one word. -/
theorem Kind.eq_of_ofWord {word keyword : String} (h : ofWord word = ofWord keyword)
    (hk : ofWord keyword ≠ identifier) : word = keyword := by
  have word_of_keyword : ∀ {w : String}, ofWord w ≠ identifier →
      w = if ofWord w = asKeyword then "as" else "null" := by
    intro w hw
    unfold ofWord at hw ⊢
    split
    · next ha => simpa using ha
    · next ha =>
      rw [if_neg ha] at hw
      split
      · next hn => simpa using hn
      · next hn => exact absurd (if_neg hn) hw
  rw [word_of_keyword hk, word_of_keyword (w := word) (h ▸ hk), h]

theorem Kind.not_mem_of_punctuation? {c : Char} {kind : Kind} (h : punctuation? c = some kind) :
    kind ∉ [integer, float, string, identifier, asKeyword, nullKeyword] := by
  unfold punctuation? at h
  split at h
  all_goals first
    | cases h; decide
    | cases h

/-- Punctuation in front of a layout. -/
theorem Layout.sign {p : Nat} {c : Char} {kind : Kind} {cs : List Char} {ts : List Token}
    (hk : Kind.punctuation? c = some kind) (h : Layout (p + 1) cs ts) :
    Layout p (c :: cs) (⟨kind, String.ofList [c], p⟩ :: ts) := by
  have hends : Ends kind cs := by
    have hmem := Kind.not_mem_of_punctuation? hk
    cases kind <;> trivial
  exact Layout.token blank_nil (.punctuation hk) hends h

namespace Spelling

variable {w text : List Char} {kind : Kind}

/-- Only words are written like words. -/
theorem eq_ofWord (h : Spelling w kind text) (hw : IsWord w) :
    kind = Kind.ofWord (String.ofList w) := by
  obtain ⟨⟨c, hc, hstart⟩, hparts⟩ := hw
  cases h with
  | word _ => rfl
  | integer hd _ =>
    have := not_isWordStart_of_isDigit (hd.2 c (List.mem_of_mem_head? hc))
    simp [hstart] at this
  | @float whole digits _ _ => exact absurd (hparts '.' (by simp)) (by decide)
  | @string quote body _ hq _ =>
    exact (not_quote_of_isWordPart (hparts quote List.mem_cons_self) hq).elim
  | punctuation hk =>
    have := (class_of_punctuation? hk).1
    simp [hparts _ List.mem_cons_self] at this

/-- All but strings are written as their text. -/
theorem eq_text (h : Spelling w kind text) (hk : kind ≠ .string) : w = text := by
  cases h with
  | string _ _ => exact absurd rfl hk
  | _ => rfl

theorem quoted (h : Spelling w kind text) (hk : kind = .string) :
    ∃ quote body, (quote = '"' ∨ quote = '\'') ∧ w = quote :: (body ++ [quote]) ∧
      Content quote body text := by
  cases h with
  | string hq h => exact ⟨_, _, hq, rfl, h⟩
  | word _ => exact absurd (hk ▸ Kind.ofWord_mem _) (by decide)
  | punctuation hp => exact absurd (by decide) (hk ▸ Kind.not_mem_of_punctuation? hp)
  | _ => cases hk

theorem value_lt (h : Spelling w kind text) (hk : kind = .integer) :
    Numeral.value text < wordSize := by
  cases h with
  | integer _ hv => exact hv
  | word _ => exact absurd (hk ▸ Kind.ofWord_mem _) (by decide)
  | punctuation hp => exact absurd (by decide) (hk ▸ Kind.not_mem_of_punctuation? hp)
  | _ => cases hk

/-- A keyword is its word and nothing else. -/
theorem keyword_iff (h : Spelling w kind text) (keyword : String) (hw : IsWord keyword.toList)
    (hk : Kind.ofWord keyword ≠ .identifier) :
    kind = Kind.ofWord keyword ↔ w = keyword.toList := by
  constructor
  · rintro rfl
    have hmem := Kind.ofWord_mem keyword
    generalize hkind : Kind.ofWord keyword = kind at h hmem
    cases h with
    | word _ => rw [← Kind.eq_of_ofWord hkind.symm hk, String.toList_ofList]
    | punctuation hp =>
      have hany := List.mem_append_right [Kind.integer, .float, .string] hmem
      exact (Kind.not_mem_of_punctuation? hp hany).elim
    | _ => exact absurd hmem (by decide)
  · rintro rfl
    rw [h.eq_ofWord hw, String.ofList_toList]

end Spelling

theorem Token.writtenAs_of_spelling {token : Token} {w : List Char}
    (h : Spelling w token.kind token.text.toList) : token.WrittenAs w where
  spelling := h
  verbatim hk := by
    have hw := h.eq_text hk
    exact ⟨hw, by rw [Token.stop, hw, String.length_toList]⟩
  quoted := h.quoted
  asWord := h.keyword_iff "as" (by decide) (by decide)
  nullWord := h.keyword_iff "null" (by decide) (by decide)
  bounded := h.value_lt

/-- A written token of a text with the blanks behind it. -/
structure Piece where
  token : Token
  written : List Char
  gap : List Char

/-- The characters of the token and of the blanks. -/
def Piece.chars (piece : Piece) : List Char := piece.written ++ piece.gap

/-- These characters, which begin at the place `p`, are blanks and then the pieces. -/
structure TakenApart (p : Nat) (cs lead : List Char) (pieces : List Piece) : Prop where
  chars : cs = lead ++ pieces.flatMap Piece.chars
  lead_blank : Blank lead
  gap_blank : ∀ piece ∈ pieces, Blank piece.gap
  written : ∀ piece ∈ pieces, piece.token.WrittenAs piece.written
  placed : ∀ before piece behind, pieces = before ++ piece :: behind →
    piece.token.position = p + (lead ++ before.flatMap Piece.chars).length
  maximal : ∀ before piece behind, pieces = before ++ piece :: behind →
    Maximal piece.token.kind (piece.gap ++ behind.flatMap Piece.chars)

theorem TakenApart.done {p : Nat} {lead : List Char} (hb : Blank lead) :
    TakenApart p lead lead [] := by
  refine ⟨by simp, hb, ?_, ?_, ?_, ?_⟩ <;> simp

/-- A written token in front of what is taken apart. -/
theorem TakenApart.token {p : Nat} {lead w gap rest : List Char} {token : Token}
    {pieces : List Piece} (hb : Blank lead) (hp : token.position = p + lead.length)
    (hw : token.WrittenAs w) (hm : Maximal token.kind rest)
    (h : TakenApart (p + lead.length + w.length) rest gap pieces) :
    TakenApart p (lead ++ (w ++ rest)) lead (⟨token, w, gap⟩ :: pieces) := by
  refine ⟨?_, hb, List.forall_mem_cons.2 ⟨h.lead_blank, h.gap_blank⟩,
    List.forall_mem_cons.2 ⟨hw, h.written⟩, ?_, ?_⟩
  · rw [h.chars]
    simp [Piece.chars]
  · intro before other behind hsplit
    rcases before with _ | ⟨first, before⟩
    · cases hsplit
      simpa using hp
    · cases hsplit
      rw [h.placed before other behind rfl]
      simp only [Piece.chars, List.flatMap_cons, List.length_append]
      omega
  · intro before other behind hsplit
    rcases before with _ | ⟨first, before⟩
    · cases hsplit
      rw [← h.chars]
      exact hm
    · cases hsplit
      exact h.maximal before other behind rfl

theorem Layout.takenApart {p : Nat} {cs : List Char} {ts : List Token} (h : Layout p cs ts) :
    ∃ lead pieces, TakenApart p cs lead pieces ∧ ts = pieces.map Piece.token := by
  induction h with
  | @done p gap hb => exact ⟨gap, [], .done hb, rfl⟩
  | @token p gap w rest text kind tokens hb hs he _ ih =>
    obtain ⟨lead, pieces, ht, rfl⟩ := ih
    let token : Token := ⟨kind, String.ofList text, p + gap.length⟩
    have hwritten : token.WrittenAs w := Token.writtenAs_of_spelling (by simpa [token] using hs)
    exact ⟨gap, ⟨token, w, lead⟩ :: pieces, .token hb rfl hwritten (maximal_iff_ends.2 he) ht, rfl⟩

/-- Behind the first token, the pieces take apart what is left. -/
theorem TakenApart.tail {p : Nat} {cs lead : List Char} {piece : Piece} {pieces : List Piece}
    (h : TakenApart p cs lead (piece :: pieces)) :
    TakenApart (p + lead.length + piece.written.length)
      (piece.gap ++ pieces.flatMap Piece.chars) piece.gap pieces := by
  obtain ⟨-, hwritten⟩ := List.forall_mem_cons.1 h.written
  obtain ⟨hgap, hgaps⟩ := List.forall_mem_cons.1 h.gap_blank
  refine ⟨rfl, hgap, hgaps, hwritten, ?_, ?_⟩
  · rintro before other behind rfl
    rw [h.placed (piece :: before) other behind rfl]
    simp only [Piece.chars, List.flatMap_cons, List.length_append]
    omega
  · rintro before other behind rfl
    exact h.maximal (piece :: before) other behind rfl

theorem TakenApart.head_position {p : Nat} {cs lead : List Char} {piece : Piece}
    {pieces : List Piece} (h : TakenApart p cs lead (piece :: pieces)) :
    piece.token.position = p + lead.length := by
  simpa using h.placed [] piece pieces rfl

/-- The first token stands in front of what is laid out behind it. -/
theorem TakenApart.token_layout {p : Nat} {cs lead rest : List Char} {piece : Piece}
    {pieces : List Piece} {tokens : List Token} (h : TakenApart p cs lead (piece :: pieces))
    (he : Ends piece.token.kind rest)
    (hrest : Layout (p + lead.length + piece.written.length) rest tokens) :
    Layout p (lead ++ (piece.written ++ rest)) (piece.token :: tokens) := by
  have htoken : piece.token =
      ⟨piece.token.kind, String.ofList piece.token.text.toList, p + lead.length⟩ := by
    rw [String.ofList_toList, ← h.head_position]
  rw [htoken]
  exact .token h.lead_blank (h.written piece List.mem_cons_self).spelling he hrest

/-- What follows the first token does not prolong it. -/
theorem TakenApart.head_ends {p : Nat} {cs lead : List Char} {piece : Piece} {pieces : List Piece}
    (h : TakenApart p cs lead (piece :: pieces)) :
    Ends piece.token.kind (piece.gap ++ pieces.flatMap Piece.chars) :=
  maximal_iff_ends.1 (h.maximal [] piece pieces rfl)

theorem TakenApart.layout {p : Nat} {cs lead : List Char} {pieces : List Piece}
    (h : TakenApart p cs lead pieces) : Layout p cs (pieces.map Piece.token) := by
  induction pieces generalizing p cs lead with
  | nil =>
    rw [h.chars, List.flatMap_nil, List.append_nil]
    exact .done h.lead_blank
  | cons piece pieces ih =>
    rw [h.chars, List.flatMap_cons, Piece.chars, List.append_assoc]
    exact h.token_layout h.head_ends (ih h.tail)

/-- **Scanning takes a text apart without loss, into the longest tokens.** The tokens of a text
are those of the pieces that it consists of, behind blanks at its beginning: each token is written
at its place and is as long as it can be. Their places ascend. -/
theorem scan_eq_ok_iff_pieces {text : String} {tokens : List Token} :
    scan text = .ok tokens ↔
      ∃ lead pieces, TakenApart 0 text.toList lead pieces ∧ tokens = pieces.map Piece.token ∧
        tokens.Pairwise fun s t => s.position < t.position := by
  unfold scan
  rw [scanFrom_eq_ok_iff]
  constructor
  · intro h
    obtain ⟨lead, pieces, ht, he⟩ := h.takenApart
    exact ⟨lead, pieces, ht, he, h.ascending.1⟩
  · rintro ⟨lead, pieces, ht, rfl, -⟩
    exact ht.layout

end NestedQuery
