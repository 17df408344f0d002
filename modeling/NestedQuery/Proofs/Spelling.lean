/-
# How tokens are written

The written forms of tokens, said without the scanner: words, numbers, string
literals and punctuation. The scanner finds a token at the head of a text
exactly if the text begins with a written form of the token and what follows
cannot prolong it (`spelling_of_lexeme`, `lexeme_of_spelling`). So a spelled
token is scanned whatever its neighbours are, as long as they keep apart
(`scanFrom_spelling`), and every scanned token is spelled
(`spelling_of_mem_scanFrom`).

Key definitions: `Content`, `Spelling`, `Ends`, `Scans`.
Key theorems: `quoted_eq_ok_iff`, `spelling_of_lexeme`, `lexeme_of_spelling`,
`scanFrom_spelling`, `spelling_of_mem_scanFrom`, `Scans.append`.
-/
import NestedQuery.Token.Scan

namespace NestedQuery

open Text

/-- What stands between the quotes of a literal, and the text that it denotes. -/
inductive Content (quote : Char) : List Char → List Char → Prop
  | nil : Content quote [] []
  | plain {c : Char} {cs text : List Char} (hq : c ≠ quote) (hb : c ≠ '\\')
      (h : Content quote cs text) : Content quote (c :: cs) (c :: text)
  | escaped {e u : Char} {cs text : List Char} (he : unescape? e = some u)
      (h : Content quote cs text) : Content quote ('\\' :: e :: cs) (u :: text)

/-- The characters of a word: one that begins words, and others that go on with them. -/
def IsWord (cs : List Char) : Prop :=
  (∃ c ∈ cs.head?, isWordStart c = true) ∧ ∀ c ∈ cs, isWordPart c = true

instance (cs : List Char) : Decidable (IsWord cs) :=
  decidable_of_iff ((cs.head?.any isWordStart && cs.all isWordPart) = true) (by
    simp [IsWord, Option.any_eq_true])

/-- One digit or more. -/
def IsDigits (cs : List Char) : Prop := cs ≠ [] ∧ ∀ c ∈ cs, c.isDigit = true

/-- A written form of a token of this kind and text. -/
inductive Spelling : List Char → Kind → List Char → Prop
  | word {cs : List Char} (h : IsWord cs) : Spelling cs (Kind.ofWord (String.ofList cs)) cs
  | integer {cs : List Char} (h : IsDigits cs) (hv : Numeral.value cs < wordSize) :
      Spelling cs .integer cs
  | float {whole digits : List Char} (hw : IsDigits whole) (hd : IsDigits digits) :
      Spelling (whole ++ '.' :: digits) .float (whole ++ '.' :: digits)
  | string {quote : Char} {cs text : List Char} (hq : quote = '"' ∨ quote = '\'')
      (h : Content quote cs text) : Spelling (quote :: (cs ++ [quote])) .string text
  | punctuation {c : Char} {kind : Kind} (h : Kind.punctuation? c = some kind) :
      Spelling [c] kind [c]

/-- A written form of a token of this kind cannot be prolonged by what follows. -/
def Ends : Kind → List Char → Prop
  | .identifier, rest | .asKeyword, rest | .nullKeyword, rest =>
    ∀ c ∈ rest.head?, isWordPart c = false
  | .integer, rest => (∀ c ∈ rest.head?, c.isDigit = false) ∧ fraction? rest = none
  | .float, rest => ∀ c ∈ rest.head?, c.isDigit = false
  | _, _ => True

/-- A word ends where no character is a part of words. -/
theorem ends_ofWord_iff {word : String} {rest : List Char} :
    Ends (Kind.ofWord word) rest ↔ ∀ c ∈ rest.head?, isWordPart c = false := by
  unfold Kind.ofWord
  split
  · exact Iff.rfl
  · split <;> exact Iff.rfl

/-- Nothing is prolonged by the end of the text. -/
theorem ends_nil (kind : Kind) : Ends kind [] := by
  cases kind <;> simp [Ends, fraction?]

/-! ### Character classes -/

theorem takeWhile_append_of_head {p : Char → Bool} {cs rest : List Char}
    (h : ∀ c ∈ cs, p c = true) (hr : ∀ c ∈ rest.head?, p c = false) :
    (cs ++ rest).takeWhile p = cs := by
  rw [List.takeWhile_append_of_pos h]
  cases rest with
  | nil => simp
  | cons c rest => simp [hr c rfl]

theorem dropWhile_append_of_head {p : Char → Bool} {cs rest : List Char}
    (h : ∀ c ∈ cs, p c = true) (hr : ∀ c ∈ rest.head?, p c = false) :
    (cs ++ rest).dropWhile p = rest := by
  rw [List.dropWhile_append_of_pos h]
  cases rest with
  | nil => rfl
  | cons c rest => simp [hr c rfl]

theorem all_takeWhile {p : Char → Bool} {cs : List Char} : ∀ c ∈ cs.takeWhile p, p c = true :=
  fun _ h => List.all_eq_true.1 List.all_takeWhile _ h

theorem head_dropWhile {p : Char → Bool} {cs : List Char} :
    ∀ c ∈ (cs.dropWhile p).head?, p c = false := by
  intro c hc
  have h := List.head?_dropWhile_not p cs
  rw [hc] at h
  simpa using h

/-- A character that is a token by itself is part of no word, no blank and no quote. -/
theorem class_of_punctuation? {c : Char} {kind : Kind} (h : Kind.punctuation? c = some kind) :
    isWordPart c = false ∧ isBlank c = false ∧ c ≠ '"' ∧ c ≠ '\'' := by
  unfold Kind.punctuation? at h
  split at h
  all_goals first
    | exact ⟨by decide, by decide, by decide, by decide⟩
    | cases h

theorem not_isBlank_of_isWordPart {c : Char} (h : isWordPart c = true) : isBlank c = false := by
  rw [Bool.eq_false_iff]
  intro hb
  rw [not_isWordPart_of_isBlank hb] at h
  cases h

theorem punctuation?_of_isWordPart {c : Char} (h : isWordPart c = true) :
    Kind.punctuation? c = none := by
  rw [Option.eq_none_iff_forall_ne_some]
  intro kind hk
  rw [(class_of_punctuation? hk).1] at h
  cases h

theorem not_quote_of_isWordPart {c : Char} (h : isWordPart c = true) :
    ¬ (c = '"' ∨ c = '\'') := by
  rintro (rfl | rfl)
  · exact absurd h (by decide)
  · exact absurd h (by decide)

/-- No word begins with a digit. -/
theorem not_isWordStart_of_isDigit {c : Char} (h : c.isDigit = true) : isWordStart c = false := by
  have hc : 48 ≤ c.toNat ∧ c.toNat ≤ 57 := by
    simp only [Char.isDigit, ge_iff_le, Bool.and_eq_true, decide_eq_true_eq,
      UInt32.le_iff_toNat_le] at h
    exact h
  have ha : alphabetic.has c.toNat = false := by
    have hl : c.toNat < 65 := by omega
    have : ∀ others, CodeRanges.has ((0x41, 0x5a) :: others) c.toNat = false := by
      intro others
      simp [CodeRanges.has, hl]
    exact this alphabetic.tail
  have hu : (c == '_') = false := by
    simp only [beq_eq_false_iff_ne, ne_eq]
    rintro rfl
    exact absurd hc.2 (by decide)
  simp [isWordStart, ha, hu]

/-! ### String literals -/

theorem quoted_eq_ok_iff {quote : Char} (hq : quote ≠ '\\') {start p : Nat} {cs : List Char}
    {l : Lexeme} :
    quoted quote start p cs = .ok l ↔
      ∃ body, Content quote body l.text ∧ cs = body ++ quote :: l.rest ∧ l.kind = .string ∧
        l.stop = p + body.length + 1 := by
  constructor
  · intro h
    fun_induction quoted quote start p cs generalizing l with
    | case1 => simp at h
    | case2 p cs =>
      cases h
      exact ⟨[], .nil, rfl, rfl, rfl⟩
    | case3 => simp at h
    | case4 => simp at h
    | case5 p e cs u hu hc ih =>
      obtain ⟨l, hl, rfl⟩ := map_eq_ok_iff.1 h
      obtain ⟨body, hb, rfl, hk, hs⟩ := ih hl
      refine ⟨'\\' :: e :: body, .escaped hu hb, rfl, hk, ?_⟩
      simp only [Lexeme.push, List.length_cons, hs]
      omega
    | case6 p c cs hc hb ih =>
      obtain ⟨l, hl, rfl⟩ := map_eq_ok_iff.1 h
      obtain ⟨body, hbody, rfl, hk, hs⟩ := ih hl
      refine ⟨c :: body, .plain hc hb hbody, rfl, hk, ?_⟩
      simp only [Lexeme.push, List.length_cons, hs]
      omega
  · rintro ⟨body, hb, rfl, hk, hs⟩
    obtain ⟨kind, text, stop, rest⟩ := l
    dsimp only at hb hk hs ⊢
    subst hk hs
    induction hb generalizing p with
    | nil =>
      rw [List.nil_append]
      unfold quoted
      rw [if_pos rfl]
      rfl
    | @plain c cs text hc hb _ ih =>
      rw [List.cons_append]
      unfold quoted
      rw [if_neg hc, if_neg hb, ih (p := p + 1)]
      simp only [Except.map, Lexeme.push, List.length_cons, Except.ok.injEq, Lexeme.mk.injEq,
        true_and, and_true]
      omega
    | @escaped e u cs text he _ ih =>
      rw [List.cons_append, List.cons_append]
      unfold quoted
      rw [if_neg (Ne.symm hq), if_pos rfl]
      simp only [he, ih (p := p + 2), Except.map, Lexeme.push, List.length_cons, Except.ok.injEq,
        Lexeme.mk.injEq, true_and, and_true]
      omega

/-! ### Numbers -/

theorem fraction?_eq_some_iff {cs digits rest : List Char} :
    fraction? cs = some (digits, rest) ↔
      IsDigits digits ∧ cs = '.' :: (digits ++ rest) ∧ ∀ c ∈ rest.head?, c.isDigit = false := by
  constructor
  · intro h
    unfold fraction? at h
    split at h
    · next d cs =>
      split at h
      · next hd =>
        cases h
        refine ⟨⟨by simp, ?_⟩, by simp, head_dropWhile⟩
        intro c hc
        rcases List.mem_cons.1 hc with rfl | hc
        · exact hd
        · exact all_takeWhile c hc
      · simp at h
    · simp at h
  · rintro ⟨⟨hne, hd⟩, rfl, hr⟩
    obtain _ | ⟨d, ds⟩ := digits
    · exact absurd rfl hne
    · have h1 : d.isDigit = true := hd d List.mem_cons_self
      have h2 : ∀ c ∈ ds, c.isDigit = true := fun c hc => hd c (List.mem_cons_of_mem _ hc)
      simp [fraction?, h1, takeWhile_append_of_head h2 hr, dropWhile_append_of_head h2 hr]

theorem spelling_of_number {p : Nat} {c : Char} {cs : List Char} {l : Lexeme}
    (hc : c.isDigit = true) (h : number p (c :: cs) = .ok l) :
    ∃ w, Spelling w l.kind l.text ∧ c :: cs = w ++ l.rest ∧ Ends l.kind l.rest ∧
      l.stop = p + w.length := by
  have hw : IsDigits ((c :: cs).takeWhile Char.isDigit) := by
    refine ⟨?_, all_takeWhile⟩
    simp [hc]
  simp only [number] at h
  split at h
  · next digits rest hf =>
    cases h
    obtain ⟨hd, he, hr⟩ := fraction?_eq_some_iff.1 hf
    refine ⟨_, .float hw hd, ?_, hr, ?_⟩
    · rw [List.append_assoc, List.cons_append, ← he, List.takeWhile_append_dropWhile]
    · simp only [List.length_append, List.length_cons]
      omega
  · next hf =>
    split at h
    · next hv =>
      cases h
      exact ⟨_, .integer hw hv, List.takeWhile_append_dropWhile.symm, ⟨head_dropWhile, hf⟩, rfl⟩
    · simp at h

theorem number_of_digits {p : Nat} {cs rest : List Char} (h : IsDigits cs)
    (hv : Numeral.value cs < wordSize) (he : Ends .integer rest) :
    number p (cs ++ rest) = .ok ⟨.integer, cs, p + cs.length, rest⟩ := by
  obtain ⟨hr, hf⟩ := he
  simp [number, takeWhile_append_of_head h.2 hr, dropWhile_append_of_head h.2 hr, hf, hv]

theorem number_of_float {p : Nat} {whole digits rest : List Char} (hw : IsDigits whole)
    (hd : IsDigits digits) (he : Ends .float rest) :
    number p (whole ++ '.' :: digits ++ rest) =
      .ok ⟨.float, whole ++ '.' :: digits, p + (whole ++ '.' :: digits).length, rest⟩ := by
  have hp : ∀ c ∈ ('.' :: (digits ++ rest)).head?, c.isDigit = false := by
    intro c hc
    cases hc
    decide
  have hf : fraction? ('.' :: (digits ++ rest)) = some (digits, rest) :=
    fraction?_eq_some_iff.2 ⟨hd, rfl, he⟩
  rw [List.append_assoc, List.cons_append]
  simp only [number, takeWhile_append_of_head hw.2 hp, dropWhile_append_of_head hw.2 hp, hf,
    List.length_append, List.length_cons, Except.ok.injEq, Lexeme.mk.injEq, true_and, and_true]
  omega

/-! ### Tokens -/

theorem spelling_of_lexeme {p : Nat} {c : Char} {cs : List Char} {l : Lexeme}
    (h : lexeme p c cs = .ok l) :
    ∃ w, Spelling w l.kind l.text ∧ c :: cs = w ++ l.rest ∧ Ends l.kind l.rest ∧
      l.stop = p + w.length := by
  unfold lexeme at h
  split at h
  · next kind hk =>
    cases h
    refine ⟨[c], .punctuation hk, rfl, ?_, rfl⟩
    unfold Kind.punctuation? at hk
    split at hk <;> cases hk <;> trivial
  · split at h
    · next hq =>
      have hb : c ≠ '\\' := by
        rcases hq with rfl | rfl <;> decide
      obtain ⟨body, hbody, hcs, hk, hs⟩ := (quoted_eq_ok_iff hb).1 h
      refine ⟨c :: (body ++ [c]), hk ▸ .string hq hbody, by simp [hcs], by simp [hk, Ends], ?_⟩
      simp only [List.length_cons, List.length_append, List.length_nil, hs]
      omega
    · split at h
      · next hs =>
        cases h
        have hp := isWordPart_of_isWordStart hs
        have hw : IsWord ((c :: cs).takeWhile isWordPart) := by
          refine ⟨⟨c, ?_, hs⟩, all_takeWhile⟩
          simp [hp]
        refine ⟨_, .word hw, List.takeWhile_append_dropWhile.symm, ?_, rfl⟩
        have he : ∀ word, Ends (Kind.ofWord word) ((c :: cs).dropWhile isWordPart) := by
          intro word
          unfold Kind.ofWord
          split
          · exact head_dropWhile
          · split <;> exact head_dropWhile
        exact he _
      · split at h
        · next hd => exact spelling_of_number hd h
        · simp at h

/-! A character that begins a token decides what kind of token it is. -/

theorem lexeme_of_punctuation? {p : Nat} {c : Char} {cs : List Char} {kind : Kind}
    (h : Kind.punctuation? c = some kind) : lexeme p c cs = .ok ⟨kind, [c], p + 1, cs⟩ := by
  unfold lexeme
  rw [h]

theorem lexeme_of_quote {p : Nat} {c : Char} {cs : List Char} (h : c = '"' ∨ c = '\'') :
    lexeme p c cs = quoted c p (p + 1) cs := by
  have hpunct : Kind.punctuation? c = none := by
    rcases h with rfl | rfl <;> rfl
  unfold lexeme
  rw [hpunct]
  exact if_pos h

theorem lexeme_of_isWordStart {p : Nat} {c : Char} {cs : List Char} (h : isWordStart c = true) :
    lexeme p c cs = .ok (word p (c :: cs)) := by
  have hpart := isWordPart_of_isWordStart h
  unfold lexeme
  rw [punctuation?_of_isWordPart hpart]
  simp only [not_quote_of_isWordPart hpart, if_false, h, if_true]

theorem lexeme_of_isDigit {p : Nat} {c : Char} {cs : List Char} (h : c.isDigit = true) :
    lexeme p c cs = number p (c :: cs) := by
  have hpart := isWordPart_of_isDigit h
  unfold lexeme
  rw [punctuation?_of_isWordPart hpart]
  simp only [not_quote_of_isWordPart hpart, if_false, not_isWordStart_of_isDigit h, h, if_true,
    Bool.false_eq_true]

theorem lexeme_of_spelling {p : Nat} {w rest text : List Char} {kind : Kind}
    (h : Spelling w kind text) (he : Ends kind rest) :
    ∃ c cs, w = c :: cs ∧ isBlank c = false ∧
      lexeme p c (cs ++ rest) = .ok ⟨kind, text, p + w.length, rest⟩ := by
  cases h with
  | word hw =>
    obtain ⟨⟨c, hc, hs⟩, hp⟩ := hw
    obtain _ | ⟨d, cs⟩ := w
    · cases hc
    · cases hc
      have hpart := isWordPart_of_isWordStart hs
      have hr : ∀ c ∈ rest.head?, isWordPart c = false := by
        unfold Kind.ofWord at he
        split at he
        · exact he
        · split at he <;> exact he
      refine ⟨c, cs, rfl, not_isBlank_of_isWordPart hpart, ?_⟩
      rw [lexeme_of_isWordStart hs, word, ← List.cons_append, takeWhile_append_of_head hp hr,
        dropWhile_append_of_head hp hr]
  | integer hw hv =>
    obtain _ | ⟨c, cs⟩ := w
    · exact absurd rfl hw.1
    · have hd : c.isDigit = true := hw.2 c List.mem_cons_self
      have hblank := not_isBlank_of_isWordPart (isWordPart_of_isDigit hd)
      refine ⟨c, cs, rfl, hblank, ?_⟩
      rw [lexeme_of_isDigit hd]
      exact number_of_digits hw hv he
  | @float whole digits hw hd =>
    obtain _ | ⟨c, cs⟩ := whole
    · exact absurd rfl hw.1
    · have hc : c.isDigit = true := hw.2 c List.mem_cons_self
      have hblank := not_isBlank_of_isWordPart (isWordPart_of_isDigit hc)
      refine ⟨c, cs ++ '.' :: digits, rfl, hblank, ?_⟩
      rw [lexeme_of_isDigit hc]
      exact number_of_float hw hd he
  | @string quote cs text hq hc =>
    have hb : quote ≠ '\\' := by
      rcases hq with rfl | rfl <;> decide
    have hblank : isBlank quote = false := by
      rcases hq with rfl | rfl <;> decide
    refine ⟨quote, cs ++ [quote], rfl, hblank, ?_⟩
    rw [lexeme_of_quote hq]
    refine (quoted_eq_ok_iff hb).2 ⟨cs, hc, by simp, rfl, ?_⟩
    simp only [List.length_cons, List.length_append, List.length_nil]
    omega
  | punctuation hk =>
    exact ⟨_, [], rfl, (class_of_punctuation? hk).2.1, lexeme_of_punctuation? hk⟩

/-! ### Scanning -/

theorem scanFrom_blank {p : Nat} {c : Char} {cs : List Char} (h : isBlank c = true) :
    scanFrom p (c :: cs) = scanFrom (p + 1) cs := by
  rw [scanFrom, if_pos h]

/-- A spelled token that ends where the rest begins is the first one. -/
theorem scanFrom_spelling {p : Nat} {w rest text : List Char} {kind : Kind}
    (h : Spelling w kind text) (he : Ends kind rest) :
    scanFrom p (w ++ rest) =
      (scanFrom (p + w.length) rest).map (⟨kind, String.ofList text, p⟩ :: ·) := by
  obtain ⟨c, cs, rfl, hb, hl⟩ := lexeme_of_spelling (p := p) h he
  rw [List.cons_append, scanFrom, hb]
  simp only [Bool.false_eq_true, if_false]
  split
  · next hx =>
    rw [hl] at hx
    cases hx
  · next hx =>
    rw [hl] at hx
    cases hx
    rfl

/-- Every scanned token is spelled. -/
theorem spelling_of_mem_scanFrom {p : Nat} {cs : List Char} {tokens : List Token}
    (h : scanFrom p cs = .ok tokens) : ∀ t ∈ tokens, ∃ w, Spelling w t.kind t.text.toList := by
  fun_induction scanFrom p cs generalizing tokens with
  | case1 =>
    cases h
    simp
  | case2 p c cs hb ih => exact ih h
  | case3 => simp at h
  | case4 p c cs hb l hl ih =>
    obtain ⟨others, ho, rfl⟩ := map_eq_ok_iff.1 h
    intro t ht
    rcases List.mem_cons.1 ht with rfl | ht
    · obtain ⟨w, hw, -⟩ := spelling_of_lexeme hl
      exact ⟨w, by simpa using hw⟩
    · exact ih ho t ht

/-- These characters are scanned as these tokens, whatever is behind them. -/
def Scans (p : Nat) (cs : List Char) (tokens : List Token) : Prop :=
  ∀ rest, scanFrom p (cs ++ rest) = (scanFrom (p + cs.length) rest).map (tokens ++ ·)

namespace Scans

theorem nil (p : Nat) : Scans p [] [] := by
  intro rest
  rw [List.nil_append, List.length_nil, Nat.add_zero]
  cases scanFrom p rest <;> rfl

theorem append {p : Nat} {cs ds : List Char} {ts us : List Token} (h : Scans p cs ts)
    (h' : Scans (p + cs.length) ds us) : Scans p (cs ++ ds) (ts ++ us) := by
  intro rest
  rw [List.append_assoc, h, h', List.length_append, Nat.add_assoc]
  cases scanFrom (p + (cs.length + ds.length)) rest <;> simp [Except.map]

/-- A written token in front of characters that end it. -/
theorem cons {p : Nat} {w text cs : List Char} {kind : Kind} {ts : List Token}
    (h : Spelling w kind text) (he : ∀ rest, Ends kind (cs ++ rest))
    (hs : Scans (p + w.length) cs ts) : Scans p (w ++ cs) (⟨kind, String.ofList text, p⟩ :: ts) := by
  intro rest
  rw [List.append_assoc, scanFrom_spelling h (he rest), hs, List.length_append, Nat.add_assoc]
  cases scanFrom (p + (w.length + cs.length)) rest <;> rfl

theorem blank (p : Nat) : Scans p [' '] [] := by
  intro rest
  have hb : isBlank ' ' = true := by decide
  rw [List.cons_append, List.nil_append, scanFrom_blank hb, List.length_singleton]
  cases scanFrom (p + 1) rest <;> rfl

/-- A token with a blank behind it is scanned alone. -/
theorem spaced {p : Nat} {w text : List Char} {kind : Kind} (h : Spelling w kind text) :
    Scans p (w ++ [' ']) [⟨kind, String.ofList text, p⟩] := by
  refine cons h ?_ (blank _)
  intro rest
  have hw : isWordPart ' ' = false := by decide
  cases kind <;> simp [Ends, hw, fraction?]

/-- A whole text is scanned as the tokens of its characters. -/
theorem scanFrom_eq {p : Nat} {cs : List Char} {tokens : List Token} (h : Scans p cs tokens) :
    scanFrom p cs = .ok tokens := by
  have hs := h []
  rw [List.append_nil] at hs
  rw [hs, scanFrom]
  simp [Except.map]

end Scans
end NestedQuery
