/-
# Where a text is no tokens

The lexemes that are at fault, said without the scanner (`Defect`): a
character that begins no token, a literal without a closing quote, a literal
with a backslash in front of the wrong character, and a whole number that is
too large. The scanner reports such a lexeme exactly if it is the next one
behind blanks and written tokens (`scanFrom_eq_error_iff`). Which is the
first one is no matter of choice: the tokens in front of it are as long as
they can be in the text, so none of them reaches into it or could begin there
another way (`WholeTokens`).

A character that begins no token and a wrong escape are at fault whatever
comes behind them (`Faulty.append`); the other two may be mended by a quote or
by a fraction.

Key definitions: `BeginsNone`, `Unclosed`, `Defect`, `Faulty`, `WholeTokens`.
Key theorems: `defect_of_lexeme`, `scanFrom_eq_error_iff`,
`faulty_iff_wholeTokens`, `Faulty.append`, `Cursor.load_fails_iff`.
-/
import NestedQuery.Proofs.Layout
import NestedQuery.Token.Cursor

namespace NestedQuery

open Text

/-! ### Lexemes at fault -/

/-- No token begins with the character. -/
def BeginsNone (c : Char) : Prop := ∀ cs kind text, ¬ Spelling (c :: cs) kind text

/-- What follows an opening quote reaches the end of the text: the content of a literal, which may
have a backslash behind it. -/
def Unclosed (quote : Char) (cs : List Char) : Prop :=
  ∃ body text, Content quote body text ∧ (cs = body ∨ cs = body ++ ['\\'])

/-- At the place `p`, where the text goes on with these characters, there is a lexeme at fault. -/
inductive Defect : Nat → List Char → LexError → Prop
  | unexpected {p : Nat} {c : Char} {cs : List Char} (hb : isBlank c = false)
      (h : BeginsNone c) : Defect p (c :: cs) (.unexpected c p)
  | unterminated {p : Nat} {quote : Char} {cs : List Char} (hq : quote = '"' ∨ quote = '\'')
      (h : Unclosed quote cs) : Defect p (quote :: cs) (.unterminated p)
  | invalidEscape {p : Nat} {quote c : Char} {body text cs : List Char}
      (hq : quote = '"' ∨ quote = '\'') (h : Content quote body text)
      (hc : unescape? c = none) :
      Defect p (quote :: (body ++ '\\' :: c :: cs)) (.invalidEscape c (p + 1 + body.length + 1))
  | invalidNumber {p : Nat} {digits cs : List Char} (hd : IsDigits digits)
      (hm : Maximal .integer cs) (hv : wordSize ≤ Numeral.value digits) :
      Defect p (digits ++ cs) (.invalidNumber (String.ofList digits) p)

/-! ### Single lexemes -/

theorem lexeme_unexpected {p : Nat} {c : Char} {cs : List Char} (hp : Kind.punctuation? c = none)
    (hq : ¬ (c = '"' ∨ c = '\'')) (hs : isWordStart c = false) (hd : c.isDigit = false) :
    lexeme p c cs = .error (.unexpected c p) := by
  unfold lexeme
  rw [hp]
  simp only [hq, hs, hd, if_false, Bool.false_eq_true]

theorem beginsNone_iff {c : Char} :
    BeginsNone c ↔ Kind.punctuation? c = none ∧ ¬ (c = '"' ∨ c = '\'') ∧ isWordStart c = false ∧
      c.isDigit = false := by
  constructor
  · intro h
    refine ⟨Option.eq_none_iff_forall_ne_some.2 fun kind hk => h [] kind [c] (.punctuation hk),
      fun hq => h [c] .string [] (.string hq .nil), Bool.eq_false_iff.2 fun hs => ?_,
      Bool.eq_false_iff.2 fun hd => ?_⟩
    · have hword : IsWord [c] :=
        ⟨⟨c, rfl, hs⟩, List.forall_mem_singleton.2 (isWordPart_of_isWordStart hs)⟩
      exact h [] _ [c] (.word hword)
    · have hdigit : IsDigits [c] := ⟨List.cons_ne_nil _ _, List.forall_mem_singleton.2 hd⟩
      exact h ['.', c] .float [c, '.', c] (.float hdigit hdigit)
  · rintro ⟨hp, hq, hs, hd⟩ cs kind text h
    obtain ⟨d, ds, hcs, -, hl⟩ := lexeme_of_spelling (p := 0) h (ends_nil kind)
    cases hcs
    rw [lexeme_unexpected hp hq hs hd] at hl
    cases hl

/-- A literal is read on behind its content. -/
theorem quoted_error_of_content {quote : Char} (hq : quote ≠ '\\') {start p : Nat}
    {body text cs : List Char} {e : LexError} (h : Content quote body text)
    (he : quoted quote start (p + body.length) cs = .error e) :
    quoted quote start p (body ++ cs) = .error e := by
  induction h generalizing p with
  | nil => exact he
  | @plain c body text hc hb _ ih =>
    have hrest : quoted quote start (p + 1) (body ++ cs) = .error e :=
      ih (by rwa [Nat.add_assoc, Nat.add_comm 1])
    rw [List.cons_append]
    unfold quoted
    rw [if_neg hc, if_neg hb, hrest]
    rfl
  | @escaped c u body text hu _ ih =>
    have hrest : quoted quote start (p + 2) (body ++ cs) = .error e :=
      ih (by rwa [Nat.add_assoc, Nat.add_comm 2])
    rw [List.cons_append, List.cons_append]
    unfold quoted
    rw [if_neg (Ne.symm hq), if_pos rfl]
    simp only [hu, hrest]
    rfl

theorem quoted_unclosed {quote : Char} (hq : quote ≠ '\\') {start p : Nat} {cs : List Char}
    (h : Unclosed quote cs) : quoted quote start p cs = .error (.unterminated start) := by
  obtain ⟨body, text, hbody, hcs⟩ := h
  obtain rfl | rfl := hcs
  · have hend : quoted quote start (p + cs.length) [] = .error (.unterminated start) := by
      rw [quoted]
    have hcontent := quoted_error_of_content hq hbody hend
    rwa [List.append_nil] at hcontent
  · refine quoted_error_of_content hq hbody ?_
    unfold quoted
    rw [if_neg (Ne.symm hq), if_pos rfl]

theorem quoted_invalidEscape {quote c : Char} (hq : quote ≠ '\\') {start p : Nat}
    {body text cs : List Char} (h : Content quote body text) (hc : unescape? c = none) :
    quoted quote start p (body ++ '\\' :: c :: cs) =
      .error (.invalidEscape c (p + body.length + 1)) := by
  refine quoted_error_of_content hq h ?_
  unfold quoted
  rw [if_neg (Ne.symm hq), if_pos rfl]
  simp only [hc]

/-- A literal fails at its end or at its first wrong escape. -/
theorem quoted_eq_error {quote : Char} {start p : Nat} {cs : List Char} {e : LexError}
    (h : quoted quote start p cs = .error e) :
    (Unclosed quote cs ∧ e = .unterminated start) ∨
      ∃ body text c rest, Content quote body text ∧ cs = body ++ '\\' :: c :: rest ∧
        unescape? c = none ∧ e = .invalidEscape c (p + body.length + 1) := by
  fun_induction quoted quote start p cs with
  | case1 =>
    cases h
    exact .inl ⟨⟨[], [], .nil, .inl rfl⟩, rfl⟩
  | case2 => cases h
  | case3 =>
    cases h
    exact .inl ⟨⟨[], [], .nil, .inr rfl⟩, rfl⟩
  | case4 p c cs hc =>
    cases h
    exact .inr ⟨[], [], c, cs, .nil, rfl, hc, rfl⟩
  | case5 p c cs u hu hc ih =>
    obtain ⟨⟨body, text, hbody, hcs⟩, rfl⟩ | ⟨body, text, d, rest, hbody, rfl, hd, rfl⟩ :=
      ih (map_eq_error_iff.1 h)
    · refine .inl ⟨⟨'\\' :: c :: body, u :: text, .escaped hu hbody, ?_⟩, rfl⟩
      obtain rfl | rfl := hcs
      · exact .inl rfl
      · exact .inr rfl
    · refine .inr ⟨'\\' :: c :: body, u :: text, d, rest, .escaped hu hbody, rfl, hd, ?_⟩
      rw [List.length_cons, List.length_cons]
      congr 1
      omega
  | case6 p c cs hc hb ih =>
    obtain ⟨⟨body, text, hbody, hcs⟩, rfl⟩ | ⟨body, text, d, rest, hbody, rfl, hd, rfl⟩ :=
      ih (map_eq_error_iff.1 h)
    · refine .inl ⟨⟨c :: body, c :: text, .plain hc hb hbody, ?_⟩, rfl⟩
      obtain rfl | rfl := hcs
      · exact .inl rfl
      · exact .inr rfl
    · refine .inr ⟨c :: body, c :: text, d, rest, .plain hc hb hbody, rfl, hd, ?_⟩
      rw [List.length_cons]
      congr 1
      omega

/-- A number fails exactly if it is whole and too large. -/
theorem number_eq_error_iff {p : Nat} {cs : List Char} {e : LexError} :
    number p cs = .error e ↔
      ∃ digits rest, cs = digits ++ rest ∧ (∀ c ∈ digits, c.isDigit = true) ∧
        Maximal .integer rest ∧ wordSize ≤ Numeral.value digits ∧
        e = .invalidNumber (String.ofList digits) p := by
  constructor
  · intro h
    simp only [number] at h
    split at h
    · cases h
    · next hf =>
      split at h
      · cases h
      · next hv =>
        cases h
        exact ⟨_, _, List.takeWhile_append_dropWhile.symm, all_takeWhile,
          maximal_iff_ends.2 ⟨head_dropWhile, hf⟩, Nat.le_of_not_lt hv, rfl⟩
  · rintro ⟨digits, rest, rfl, hd, hm, hv, rfl⟩
    obtain ⟨hr, hf⟩ : Ends .integer rest := maximal_iff_ends.1 hm
    simp only [number, takeWhile_append_of_head hd hr, dropWhile_append_of_head hd hr, hf,
      if_neg (Nat.not_lt.2 hv)]

theorem defect_of_lexeme {p : Nat} {c : Char} {cs : List Char} {e : LexError}
    (hb : isBlank c = false) (h : lexeme p c cs = .error e) : Defect p (c :: cs) e := by
  unfold lexeme at h
  split at h
  · cases h
  · next hp =>
    split at h
    · next hq =>
      obtain ⟨hcs, rfl⟩ | ⟨body, text, d, rest, hbody, rfl, hd, rfl⟩ := quoted_eq_error h
      · exact .unterminated hq hcs
      · exact .invalidEscape hq hbody hd
    · next hq =>
      split at h
      · cases h
      · next hs =>
        split at h
        · next hd =>
          obtain ⟨digits, rest, hcs, hdigits, hm, hv, rfl⟩ := number_eq_error_iff.1 h
          rw [hcs]
          refine .invalidNumber ⟨?_, hdigits⟩ hm hv
          rintro rfl
          exact absurd hv (by decide)
        · next hd =>
          cases h
          exact .unexpected hb (beginsNone_iff.2 ⟨hp, hq, by simpa using hs, by simpa using hd⟩)

theorem lexeme_of_defect {p : Nat} {cs : List Char} {e : LexError} (h : Defect p cs e) :
    ∃ c ds, cs = c :: ds ∧ isBlank c = false ∧ lexeme p c ds = .error e := by
  cases h with
  | @unexpected c cs hb h =>
    obtain ⟨hp, hq, hs, hd⟩ := beginsNone_iff.1 h
    exact ⟨c, cs, rfl, hb, lexeme_unexpected hp hq hs hd⟩
  | @unterminated quote cs hq h =>
    have hb : quote ≠ '\\' ∧ isBlank quote = false := by
      rcases hq with rfl | rfl <;> decide
    exact ⟨quote, cs, rfl, hb.2, by rw [lexeme_of_quote hq, quoted_unclosed hb.1 h]⟩
  | @invalidEscape quote c body text cs hq h hc =>
    have hb : quote ≠ '\\' ∧ isBlank quote = false := by
      rcases hq with rfl | rfl <;> decide
    exact ⟨quote, _, rfl, hb.2, by rw [lexeme_of_quote hq, quoted_invalidEscape hb.1 h hc]⟩
  | @invalidNumber digits cs hd hm hv =>
    obtain ⟨c, ds, rfl⟩ := List.exists_cons_of_ne_nil hd.1
    have hc : c.isDigit = true := hd.2 c List.mem_cons_self
    refine ⟨c, ds ++ cs, rfl, not_isBlank_of_isWordPart (isWordPart_of_isDigit hc), ?_⟩
    rw [lexeme_of_isDigit hc]
    exact number_eq_error_iff.2 ⟨c :: ds, cs, rfl, hd.2, hm, hv, rfl⟩

/-- A number with a fraction is read, however large it is. -/
theorem not_defect_of_fraction {p : Nat} {whole digits rest : List Char} {e : LexError}
    (hw : IsDigits whole) (hd : IsDigits digits) :
    ¬ Defect p (whole ++ '.' :: (digits ++ rest)) e := by
  intro h
  obtain ⟨c, ds, hcs, -, hl⟩ := lexeme_of_defect h
  obtain ⟨b, bs, rfl⟩ := List.exists_cons_of_ne_nil hw.1
  obtain ⟨d, ds', rfl⟩ := List.exists_cons_of_ne_nil hd.1
  rw [List.cons_append] at hcs
  cases hcs
  rw [lexeme_of_isDigit (hw.2 c List.mem_cons_self), ← List.cons_append] at hl
  obtain ⟨run, behind, hrun, hdigits, hm, -, -⟩ := number_eq_error_iff.1 hl
  -- both ways to divide the text have the digits at its beginning in front
  have hbehind : '.' :: (d :: ds' ++ rest) = behind := by
    have hpoint : ∀ c ∈ ('.' :: (d :: ds' ++ rest)).head?, c.isDigit = false := by
      rintro _ ⟨rfl⟩
      decide
    rw [← dropWhile_append_of_head hw.2 hpoint, hrun,
      dropWhile_append_of_head hdigits (hm.number (.inl rfl))]
  have hfraction := hm.fraction rfl d (ds' ++ rest) hbehind.symm
  rw [hd.2 d List.mem_cons_self] at hfraction
  cases hfraction

/-! ### The next lexeme at fault -/

/-- From the place `p` on, these characters are blanks and written tokens up to a lexeme at fault,
and none of the tokens is prolonged by what follows. -/
inductive Faulty : Nat → List Char → LexError → Prop
  | here {p : Nat} {gap rest : List Char} {e : LexError} (hb : Blank gap)
      (h : Defect (p + gap.length) rest e) : Faulty p (gap ++ rest) e
  | behind {p : Nat} {gap w rest text : List Char} {kind : Kind} {e : LexError} (hb : Blank gap)
      (hs : Spelling w kind text) (he : Ends kind rest)
      (h : Faulty (p + gap.length + w.length) rest e) : Faulty p (gap ++ (w ++ rest)) e

theorem scanFrom_of_defect {p : Nat} {cs : List Char} {e : LexError} (h : Defect p cs e) :
    scanFrom p cs = .error e := by
  obtain ⟨c, ds, rfl, hb, hl⟩ := lexeme_of_defect h
  rw [scanFrom, hb]
  simp only [Bool.false_eq_true, if_false]
  split
  · next hx =>
    rw [hl] at hx
    cases hx
    rfl
  · next hx =>
    rw [hl] at hx
    cases hx

namespace Faulty

variable {p : Nat} {cs : List Char} {e : LexError}

/-- Blanks may stand in front. -/
theorem blanks {gap : List Char} (hb : Blank gap) (h : Faulty (p + gap.length) cs e) :
    Faulty p (gap ++ cs) e := by
  cases h with
  | @here _ gap' rest _ hb' h =>
    rw [← List.append_assoc]
    refine .here (blank_append.2 ⟨hb, hb'⟩) ?_
    rwa [List.length_append, ← Nat.add_assoc]
  | @behind _ gap' w rest text kind _ hb' hs he h =>
    rw [← List.append_assoc]
    refine .behind (blank_append.2 ⟨hb, hb'⟩) hs he ?_
    rwa [List.length_append, ← Nat.add_assoc]

theorem scanFrom_eq (h : Faulty p cs e) : scanFrom p cs = .error e := by
  induction h with
  | here hb h => rw [scanFrom_blanks hb, scanFrom_of_defect h]
  | behind hb hs he _ ih =>
    rw [scanFrom_blanks hb, scanFrom_spelling hs he, ih]
    rfl

theorem of_scanFrom (h : scanFrom p cs = .error e) : Faulty p cs e := by
  fun_induction scanFrom p cs generalizing e with
  | case1 => cases h
  | case2 p c cs hb ih =>
    have hc : Blank [c] := List.forall_mem_singleton.2 hb
    exact (ih h).blanks hc
  | case3 p c cs hb e hl =>
    cases h
    exact .here blank_nil (defect_of_lexeme (by simpa using hb) hl)
  | case4 p c cs hb l hl ih =>
    obtain ⟨w, hs, hcs, he, hstop⟩ := spelling_of_lexeme hl
    have hrest := ih (map_eq_error_iff.1 h)
    rw [hstop] at hrest
    rw [hcs]
    exact .behind blank_nil hs he hrest

end Faulty

/-- The scanner reports the lexeme at fault that is the next one behind written tokens. -/
theorem scanFrom_eq_error_iff {p : Nat} {cs : List Char} {e : LexError} :
    scanFrom p cs = .error e ↔ Faulty p cs e := ⟨Faulty.of_scanFrom, Faulty.scanFrom_eq⟩

/-! ### Texts behind a lexeme at fault -/

/-- The errors that no text behind the lexeme can mend. -/
def LexError.Final (e : LexError) : Prop :=
  ∃ c p, e = .unexpected c p ∨ e = .invalidEscape c p

theorem Defect.append {p : Nat} {cs : List Char} {e : LexError} (h : Defect p cs e)
    (he : e.Final) (more : List Char) : Defect p (cs ++ more) e := by
  obtain ⟨c, q, he⟩ := he
  cases h with
  | unexpected hb h => exact .unexpected hb h
  | unterminated => simp at he
  | invalidEscape hq h hc =>
    rw [List.cons_append, List.append_assoc]
    exact .invalidEscape hq h hc
  | invalidNumber => simp at he

/-- What does not prolong a token does not either if it goes on, unless it is empty or a point. -/
theorem Ends.append_of_ne {kind : Kind} {rest : List Char} (h : Ends kind rest) (hnil : rest ≠ [])
    (hpoint : rest ≠ ['.']) (more : List Char) : Ends kind (rest ++ more) := by
  obtain ⟨c, cs, rfl⟩ := List.exists_cons_of_ne_nil hnil
  cases kind with
  | integer =>
    refine ⟨h.1, fraction?_eq_none_iff.2 ?_⟩
    intro d ds hd
    rcases cs with _ | ⟨b, cs⟩
    · cases hd
      exact absurd rfl hpoint
    · cases hd
      exact fraction?_eq_none_iff.1 h.2 d cs rfl
  | _ => exact h

/-- A final error stays whatever is behind the text. -/
theorem Faulty.append {p : Nat} {cs : List Char} {e : LexError} (h : Faulty p cs e) (he : e.Final)
    (more : List Char) : Faulty p (cs ++ more) e := by
  induction h with
  | here hb h =>
    rw [List.append_assoc]
    exact .here hb (h.append he more)
  | @behind p gap w rest text kind e hb hs hends h ih =>
    rw [List.append_assoc, List.append_assoc]
    refine .behind hb hs (hends.append_of_ne ?_ ?_ more) (ih he)
    · rintro rfl
      have hscan := h.scanFrom_eq
      rw [scanFrom] at hscan
      cases hscan
    · rintro rfl
      have hdot : Layout (p + gap.length + w.length) ['.'] [⟨.dot, ".", p + gap.length + w.length⟩] :=
        .sign rfl (.done blank_nil)
      have hscan := h.scanFrom_eq
      rw [hdot.scanFrom_eq] at hscan
      cases hscan

/-! ### Whole tokens in front -/

/-- In the text from the place `p` on, each of these tokens is as long as it can be. -/
def Longest (p : Nat) (cs : List Char) (tokens : List Token) : Prop :=
  ∀ t ∈ tokens, Maximal t.kind (cs.drop (t.stop - p))

/-- The first token is as long as it can be if what is behind it does not prolong it. -/
theorem longest_cons_iff {p : Nat} {gap w rest text : List Char} {kind : Kind}
    {tokens : List Token} (hs : Spelling w kind text)
    (htokens : ∀ t ∈ tokens, p + gap.length + w.length ≤ t.position) :
    Longest p (gap ++ (w ++ rest)) (⟨kind, String.ofList text, p + gap.length⟩ :: tokens) ↔
      Ends kind rest ∧ Longest (p + gap.length + w.length) rest tokens := by
  have hfirst : Maximal kind ((gap ++ (w ++ rest)).drop (p + gap.length + text.length - p)) ↔
      Ends kind rest := by
    by_cases hk : kind = .string
    · subst hk
      exact iff_of_true (maximal_iff_ends.2 trivial) trivial
    · have hplace : p + gap.length + text.length - p = gap.length + (w.length + 0) := by
        rw [hs.eq_text hk]
        omega
      rw [hplace, List.drop_length_add_append, List.drop_length_add_append, List.drop_zero,
        maximal_iff_ends]
  have hothers : ∀ t ∈ tokens, (gap ++ (w ++ rest)).drop (t.stop - p) =
      rest.drop (t.stop - (p + gap.length + w.length)) := by
    intro t ht
    have hplace : t.stop - p =
        gap.length + (w.length + (t.stop - (p + gap.length + w.length))) := by
      have := htokens t ht
      unfold Token.stop
      omega
    rw [hplace, List.drop_length_add_append, List.drop_length_add_append]
  unfold Longest
  rw [List.forall_mem_cons, Token.stop]
  dsimp only
  rw [String.length_ofList, hfirst]
  refine and_congr_right fun _ => forall₂_congr fun t ht => ?_
  rw [hothers t ht]

/-- The characters in front of `rest` are whole tokens of the text: they split into tokens, and
none of these is longer in the text. A cut behind the first letter of a word leaves a token in
front of it, but not a whole one, and so no lexeme begins there. -/
structure WholeTokens (before rest : List Char) (tokens : List Token) : Prop where
  scanned : scan (String.ofList before) = .ok tokens
  longest : ∀ t ∈ tokens, Maximal t.kind ((before ++ rest).drop t.stop)

theorem Faulty.exists_layout {p : Nat} {cs : List Char} {e : LexError} (h : Faulty p cs e) :
    ∃ before rest tokens, cs = before ++ rest ∧ Layout p before tokens ∧
      Longest p (before ++ rest) tokens ∧ Defect (p + before.length) rest e := by
  induction h with
  | @here p gap rest e hb h =>
    exact ⟨gap, rest, [], rfl, .done hb, List.forall_mem_nil _, h⟩
  | @behind p gap w rest text kind e hb hs he _ ih =>
    obtain ⟨before, rest, tokens, rfl, hlayout, hlongest, hdefect⟩ := ih
    refine ⟨gap ++ (w ++ before), rest, _, by simp, .token hb hs he.of_append hlayout, ?_, ?_⟩
    · rw [List.append_assoc, List.append_assoc]
      exact (longest_cons_iff hs hlayout.ascending.2).2 ⟨he, hlongest⟩
    · simpa only [List.length_append, Nat.add_assoc] using hdefect

theorem Layout.faulty {p : Nat} {before rest : List Char} {tokens : List Token} {e : LexError}
    (h : Layout p before tokens) (hl : Longest p (before ++ rest) tokens)
    (hd : Defect (p + before.length) rest e) : Faulty p (before ++ rest) e := by
  induction h with
  | done hb => exact .here hb hd
  | @token p gap w before text kind tokens hb hs he hlayout ih =>
    rw [List.append_assoc, List.append_assoc] at hl ⊢
    obtain ⟨hends, hlongest⟩ := (longest_cons_iff hs hlayout.ascending.2).1 hl
    refine .behind hb hs hends (ih hlongest ?_)
    simpa only [List.length_append, Nat.add_assoc] using hd

/-- A lexeme at fault is the next one exactly if what is in front of it are whole tokens. -/
theorem faulty_iff_wholeTokens {cs : List Char} {e : LexError} :
    Faulty 0 cs e ↔ ∃ before rest tokens, cs = before ++ rest ∧ WholeTokens before rest tokens ∧
      Defect before.length rest e := by
  constructor
  · intro h
    obtain ⟨before, rest, tokens, rfl, hlayout, hlongest, hdefect⟩ := h.exists_layout
    rw [Nat.zero_add] at hdefect
    refine ⟨before, rest, tokens, rfl, ⟨?_, hlongest⟩, hdefect⟩
    rw [scan, String.toList_ofList]
    exact hlayout.scanFrom_eq
  · rintro ⟨before, rest, tokens, rfl, ⟨hscanned, hlongest⟩, hdefect⟩
    rw [scan, String.toList_ofList] at hscanned
    rw [← Nat.zero_add before.length] at hdefect
    exact (Layout.of_scanFrom hscanned).faulty hlongest hdefect

theorem Cursor.load_eq_error_iff {cursor : Cursor} {text : String} {e : LexError} :
    (cursor.load text).1 = .error e ↔ scan text = .error e := by
  unfold load
  split <;> simp_all

/-- **Lexical errors are exact.** A text cannot be loaded if and only if, behind whole tokens and
blanks, there is a lexeme at fault, and it is this lexeme that is reported. A number with a
fraction is never at fault. A character that begins no token and a wrong escape are reported
whatever is put behind the text. -/
theorem Cursor.load_fails_iff (cursor : Cursor) (text : String) :
    (∀ e, (cursor.load text).1 = .error e ↔
      ∃ before rest tokens, text.toList = before ++ rest ∧ WholeTokens before rest tokens ∧
        Defect before.length rest e) ∧
    (∀ p whole digits rest e, IsDigits whole → IsDigits digits →
      ¬ Defect p (whole ++ '.' :: (digits ++ rest)) e) ∧
    ∀ e : LexError, e.Final → (cursor.load text).1 = .error e →
      ∀ more, (cursor.load (text ++ more)).1 = .error e := by
  refine ⟨fun e => ?_, fun p whole digits rest e => not_defect_of_fraction, fun e he h more => ?_⟩
  · rw [load_eq_error_iff, scan, scanFrom_eq_error_iff, faulty_iff_wholeTokens]
  · rw [load_eq_error_iff, scan, scanFrom_eq_error_iff] at h ⊢
    rw [String.toList_append]
    exact h.append he _

/-- A sign behind a word and a blank, with anything behind it; and a large number that a fraction
saves. -/
theorem Cursor.load_fails_iff_sign :
    let cursor : Cursor := {}
    (cursor.load "a ;").1 = .error (.unexpected ';' 2) ∧
      (∀ more, (cursor.load ("a ;" ++ more)).1 = .error (.unexpected ';' 2)) ∧
      ∀ e, ¬ Defect 0 "99999999999999999999.5".toList e := by
  intro cursor
  obtain ⟨hexact, hfraction, hfinal⟩ := cursor.load_fails_iff "a ;"
  have hword : Layout 0 ['a', ' '] [⟨.identifier, "a", 0⟩] := by
    have hblank : Blank [' '] := by decide
    refine .word (w := "a") (by decide) ?_ (.done hblank)
    rintro _ ⟨rfl⟩
    decide
  have hlongest : Maximal .identifier [' ', ';'] := by
    refine maximal_iff_ends.2 ?_
    rintro _ ⟨rfl⟩
    decide
  have hwhole : WholeTokens ['a', ' '] [';'] [⟨.identifier, "a", 0⟩] :=
    ⟨hword.scanFrom_eq, List.forall_mem_singleton.2 hlongest⟩
  have hsign : Defect 2 [';'] (.unexpected ';' 2) :=
    .unexpected (by decide) (beginsNone_iff.2 ⟨rfl, by decide, by decide, by decide⟩)
  have hload : (cursor.load "a ;").1 = .error (.unexpected ';' 2) :=
    (hexact _).2 ⟨['a', ' '], [';'], _, rfl, hwhole, hsign⟩
  have hnines : IsDigits (List.replicate 20 '9') := ⟨by decide, List.all_eq_true.1 rfl⟩
  have hfive : IsDigits ['5'] := ⟨by decide, List.all_eq_true.1 rfl⟩
  refine ⟨hload, hfinal _ ⟨';', 2, .inl rfl⟩ hload, fun e => ?_⟩
  exact hfraction 0 (List.replicate 20 '9') ['5'] [] e hnines hfive

end NestedQuery
