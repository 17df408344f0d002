/-
# The parser accepts exactly the grammar

For every phrase, the parser returns a value and the tokens behind it exactly
if it cut off tokens that derive that value (`Grammar`). So a text says a
query exactly if its tokens derive it and no two siblings share an alias
(`parse_eq_ok_iff`), or if it has no tokens and the query is empty. The
grammar alone derives nothing from no tokens (`blank_text_not_derived`).

Key theorems: `Parser.path_eq_ok_iff`, `Parser.modifier_eq_ok_iff`,
`Parser.heading_eq_ok_iff`, `Parser.isQuery_of_entities`,
`Parser.entities_of_isQuery`, `parseTokens_eq_ok_iff`, `parse_eq_ok_iff`.
-/
import NestedQuery.Proofs.Grammar

namespace NestedQuery
namespace Parser

open Grammar

/-! ### Property paths -/

theorem names_of_moreNames {phrase : Phrase} {stop : Nat} {tokens rest : List Token}
    {names : List String} (h : moreNames phrase stop tokens = .ok (names, rest)) :
    ∀ name : Token, name.kind ∈ nameKinds → name.stop = stop →
      ∃ more, Names rest (name :: more) (name.text :: names) ∧ tokens = more ++ rest := by
  fun_induction moreNames phrase stop tokens generalizing names rest with
  | case1 stop =>
    cases h
    intro name hn _
    exact ⟨[], .last hn (by simp), rfl⟩
  | case2 => simp at h
  | case3 stop dot hd segment tokens hs ih =>
    obtain ⟨⟨ns, r⟩, hr, he⟩ := map_eq_ok_iff.1 h
    cases he
    intro name hn hstop
    obtain ⟨more, hm, rfl⟩ := ih hr segment hs rfl
    exact ⟨dot :: segment :: more, .dot hn ⟨hd.1, hd.2.trans hstop.symm⟩ hm, rfl⟩
  | case4 => simp at h
  | case5 stop dot tokens hd =>
    cases h
    intro name hn hstop
    refine ⟨[], .last hn ?_, rfl⟩
    intro other ho hj
    cases ho
    exact hd ⟨hj.1, hj.2.trans hstop⟩

theorem moreNames_of_names (phrase : Phrase) {behind tokens : List Token} {names : List String}
    (h : Names behind tokens names) :
    ∃ name more others, name.kind ∈ nameKinds ∧ tokens = name :: more ∧
      names = name.text :: others ∧
      moreNames phrase name.stop (more ++ behind) = .ok (others, behind) := by
  induction h with
  | @last name hn hb =>
    refine ⟨name, [], [], hn, rfl, rfl, ?_⟩
    cases behind with
    | nil => rfl
    | cons dot behind =>
      have hj : ¬ (dot.kind = .dot ∧ dot.position = name.stop) := hb dot rfl
      rw [List.nil_append]
      unfold moreNames
      rw [if_neg hj]
  | @dot name dot tokens names hn hd _ ih =>
    obtain ⟨second, more, others, hs, rfl, rfl, hm⟩ := ih
    refine ⟨name, dot :: second :: more, second.text :: others, hn, rfl, rfl, ?_⟩
    have hj : dot.kind = .dot ∧ dot.position = name.stop := hd
    simp [moreNames, hj, hs, hm, Except.map]

theorem path_eq_ok_iff (phrase : Phrase) {tokens rest : List Token} {p : String} :
    path phrase tokens = .ok (p, rest) ↔ ∃ ts, Path rest ts p ∧ tokens = ts ++ rest := by
  constructor
  · intro h
    unfold path at h
    split at h
    · simp at h
    · next first more hf =>
      obtain ⟨⟨names, r⟩, hm, he⟩ := map_eq_ok_iff.1 h
      cases he
      obtain ⟨hk, rfl⟩ := name_eq_ok_iff.1 hf
      obtain ⟨ts, hn, rfl⟩ := names_of_moreNames hm first hk rfl
      exact ⟨first :: ts, ⟨_, hn, rfl⟩, rfl⟩
  · rintro ⟨ts, ⟨names, hn, rfl⟩, rfl⟩
    obtain ⟨first, more, others, hk, rfl, rfl, hm⟩ := moreNames_of_names phrase hn
    have hf : name phrase (first :: (more ++ rest)) = .ok (first, more ++ rest) :=
      name_eq_ok_iff.2 ⟨hk, rfl⟩
    simp [path, hf, hm, Except.map]

/-! ### Sort terms -/

theorem direction_eq_iff {tokens rest : List Token} {d : SortDirection} :
    direction tokens = (d, rest) ↔
      (d = .ascending ∧ tokens = rest ∧ Without .identifier rest) ∨
        ∃ word, word.kind = .identifier ∧ d = .ofWord word.text ∧ tokens = word :: rest := by
  cases tokens with
  | nil =>
    constructor
    · intro h
      cases h
      exact .inl ⟨rfl, rfl, without_nil _⟩
    · rintro (⟨rfl, rfl, -⟩ | ⟨_, _, _, h⟩)
      · rfl
      · cases h
  | cons token tokens =>
    by_cases hk : token.kind = .identifier
    · rw [direction, if_pos hk]
      constructor
      · intro h
        cases h
        exact .inr ⟨token, hk, rfl, rfl⟩
      · rintro (⟨-, rfl, hw⟩ | ⟨word, -, rfl, h⟩)
        · exact absurd hk (without_cons.1 hw)
        · cases h
          rfl
    · rw [direction, if_neg hk]
      constructor
      · intro h
        cases h
        exact .inl ⟨rfl, rfl, without_cons.2 hk⟩
      · rintro (⟨rfl, rfl, -⟩ | ⟨word, hw, -, h⟩)
        · rfl
        · cases h
          exact absurd hw hk

/-- A path and the direction behind it are a term. -/
theorem term_iff (phrase : Phrase) {tokens rest : List Token} {p : String} {d : SortDirection} :
    (∃ more, path phrase tokens = .ok (p, more) ∧ direction more = (d, rest)) ↔
      ∃ ts, Term rest ts ⟨p, d⟩ ∧ tokens = ts ++ rest := by
  constructor
  · rintro ⟨more, hp, hd⟩
    obtain ⟨ts, ht, rfl⟩ := (path_eq_ok_iff _).1 hp
    rcases direction_eq_iff.1 hd with ⟨rfl, rfl, hb⟩ | ⟨word, hw, rfl, rfl⟩
    · exact ⟨ts, .bare ht hb, rfl⟩
    · exact ⟨ts ++ [word], .directed ht hw, by simp⟩
  · rintro ⟨ts, ht, rfl⟩
    cases ht with
    | bare hp hb =>
      exact ⟨rest, (path_eq_ok_iff _).2 ⟨ts, hp, rfl⟩, direction_eq_iff.2 (.inl ⟨rfl, rfl, hb⟩)⟩
    | @directed ts word _ hp hw =>
      refine ⟨word :: rest, (path_eq_ok_iff _).2 ⟨ts, hp, by simp⟩, ?_⟩
      exact direction_eq_iff.2 (.inr ⟨word, hw, rfl, rfl⟩)

/-- There is no term without its path. -/
theorem sortTerms_error {phrase : Phrase} {tokens : List Token} {err : ParseError}
    (hp : path phrase tokens = .error err) : sortTerms phrase tokens = .error err := by
  unfold sortTerms
  split
  · next he =>
    rw [hp] at he
    cases he
    rfl
  · next he =>
    rw [hp] at he
    cases he

/-- A term that no comma follows is the last one. -/
theorem sortTerms_last {phrase : Phrase} {tokens more rest : List Token} {p : String}
    {d : SortDirection} (hp : path phrase tokens = .ok (p, more)) (hd : direction more = (d, rest))
    (hb : Without .comma rest) : sortTerms phrase tokens = .ok ([⟨p, d⟩], rest) := by
  unfold sortTerms
  split
  · next he =>
    rw [hp] at he
    cases he
  · next he =>
    rw [hp] at he
    cases he
    split
    · next he =>
      rw [hd] at he
      cases he
      rfl
    · next he =>
      rw [hd] at he
      cases he
      rw [if_neg (without_cons.1 hb)]

/-- A comma behind a term begins a further one. -/
theorem sortTerms_more {phrase : Phrase} {tokens more others : List Token} {p : String}
    {d : SortDirection} {comma : Token} (hp : path phrase tokens = .ok (p, more))
    (hd : direction more = (d, comma :: others)) (hc : comma.kind = .comma) :
    sortTerms phrase tokens =
      (sortTerms phrase others).map fun r => (⟨p, d⟩ :: r.1, r.2) := by
  rw [sortTerms]
  split
  · next he =>
    rw [hp] at he
    cases he
  · next he =>
    rw [hp] at he
    cases he
    split
    · next he =>
      rw [hd] at he
      cases he
    · next he =>
      rw [hd] at he
      cases he
      rw [if_pos hc]

theorem terms_of_sortTerms {phrase : Phrase} {tokens rest : List Token} {terms : List SortTerm}
    (h : sortTerms phrase tokens = .ok (terms, rest)) :
    ∃ ts, Terms rest ts terms ∧ tokens = ts ++ rest := by
  fun_induction sortTerms phrase tokens generalizing terms rest with
  | case1 => simp at h
  | case2 tokens property more hp d hd =>
    cases h
    obtain ⟨ts, ht, rfl⟩ := (term_iff phrase).1 ⟨more, hp, hd⟩
    exact ⟨ts, .last ht (without_nil _), rfl⟩
  | case3 tokens property more hp d comma others hd hc ih =>
    obtain ⟨⟨terms, r⟩, hr, he⟩ := map_eq_ok_iff.1 h
    cases he
    obtain ⟨us, hu, rfl⟩ := ih hr
    obtain ⟨ts, ht, rfl⟩ := (term_iff phrase).1 ⟨more, hp, hd⟩
    exact ⟨ts ++ comma :: us, .more ht hc hu, by simp⟩
  | case4 tokens property more hp d comma others hd hc =>
    cases h
    obtain ⟨ts, ht, rfl⟩ := (term_iff phrase).1 ⟨more, hp, hd⟩
    exact ⟨ts, .last ht (without_cons.2 hc), rfl⟩

theorem sortTerms_of_terms (phrase : Phrase) {behind tokens : List Token} {terms : List SortTerm}
    (h : Terms behind tokens terms) :
    sortTerms phrase (tokens ++ behind) = .ok (terms, behind) := by
  induction h with
  | @last tokens term ht hb =>
    obtain ⟨p, d⟩ := term
    obtain ⟨more, hp, hd⟩ := (term_iff phrase).2 ⟨tokens, ht, rfl⟩
    exact sortTerms_last hp hd hb
  | @more tokens others comma term terms ht hc _ ih =>
    obtain ⟨p, d⟩ := term
    obtain ⟨more, hp, hd⟩ := (term_iff phrase).2 ⟨tokens, ht, rfl⟩
    rw [List.append_assoc, List.cons_append, sortTerms_more hp hd hc, ih]
    rfl

theorem sortTerms_eq_ok_iff {phrase : Phrase} {tokens rest : List Token}
    {terms : List SortTerm} :
    sortTerms phrase tokens = .ok (terms, rest) ↔
      ∃ ts, Terms rest ts terms ∧ tokens = ts ++ rest := by
  constructor
  · exact terms_of_sortTerms
  · rintro ⟨ts, ht, rfl⟩
    exact sortTerms_of_terms phrase ht

/-! ### Limits -/

theorem size_eq_ok_iff {phrase : Phrase} {tokens rest : List Token} {n : Nat} :
    size phrase tokens = .ok (n, rest) ↔ ∃ token, Size token n ∧ tokens = token :: rest := by
  constructor
  · intro h
    unfold size at h
    split at h
    · simp at h
    · next token more he =>
      obtain ⟨hk, rfl⟩ := expect_eq_ok_iff.1 he
      split at h
      · next hw =>
        cases h
        exact ⟨token, ⟨by simpa using hk, hw⟩, rfl⟩
      · simp at h
  · rintro ⟨token, ⟨hk, hw⟩, rfl⟩
    have he : expect [.integer] phrase (token :: rest) = .ok (token, rest) :=
      expect_eq_ok_iff.2 ⟨by simp [hk], rfl⟩
    simp [size, he, hw]

theorem limitArguments_eq_ok_iff (phrase : Phrase) {tokens rest : List Token}
    {r : Nat × Option Nat} :
    limitArguments phrase tokens = .ok (r, rest) ↔
      ∃ ts, Arguments rest ts r ∧ tokens = ts ++ rest := by
  constructor
  · intro h
    unfold limitArguments at h
    split at h
    · simp at h
    · next first hs =>
      cases h
      obtain ⟨token, hn, rfl⟩ := size_eq_ok_iff.1 hs
      exact ⟨[token], .count hn (without_nil _), rfl⟩
    · next first comma more hs =>
      obtain ⟨token, hn, rfl⟩ := size_eq_ok_iff.1 hs
      split at h
      · next hc =>
        split at h
        · simp at h
        · next second others =>
          split at h
          · obtain ⟨⟨n, r⟩, hr, he⟩ := map_eq_ok_iff.1 h
            cases he
            obtain ⟨other, ho, he⟩ := size_eq_ok_iff.1 hr
            cases he
            exact ⟨[token, comma, second], .offsetAndCount hn hc ho, rfl⟩
          · split at h
            · next hk =>
              cases h
              exact ⟨[token, comma, second], .offset hn hc hk, rfl⟩
            · simp at h
      · next hc =>
        cases h
        exact ⟨[token], .count hn (without_cons.2 hc), rfl⟩
  · rintro ⟨ts, h, rfl⟩
    cases h with
    | @count token n hn hb =>
      have hs : size phrase (token :: rest) = .ok (n, rest) := size_eq_ok_iff.2 ⟨token, hn, rfl⟩
      cases rest with
      | nil => simp [limitArguments, hs]
      | cons other rest => simp [limitArguments, hs, without_cons.1 hb]
    | @offsetAndCount first comma second m n hm hc hn =>
      have h1 : size phrase (first :: comma :: second :: rest) = .ok (m, comma :: second :: rest) :=
        size_eq_ok_iff.2 ⟨first, hm, rfl⟩
      have h2 : size phrase (second :: rest) = .ok (n, rest) :=
        size_eq_ok_iff.2 ⟨second, hn, rfl⟩
      simp [limitArguments, h1, h2, hc, hn.1, Except.map]
    | @offset first comma second m hm hc hn =>
      have h1 : size phrase (first :: comma :: second :: rest) = .ok (m, comma :: second :: rest) :=
        size_eq_ok_iff.2 ⟨first, hm, rfl⟩
      simp [limitArguments, h1, hc, hn]

/-! ### Modifiers -/

theorem payload_eq_iff (depth : Nat) {tokens rest : List Token} {texts : List String} :
    payload depth tokens = (texts, rest) ↔
      ∃ ts, Payload rest depth ts ∧ texts = ts.map Token.text ∧ tokens = ts ++ rest := by
  constructor
  · intro h
    induction tokens generalizing depth texts with
    | nil =>
      cases h
      exact ⟨[], .done (by simp), rfl, rfl⟩
    | cons token tokens ih =>
      by_cases he : endsPayload depth token.kind = true
      · rw [payload, if_pos he] at h
        cases h
        exact ⟨[], .done (by simpa using he), rfl, rfl⟩
      · rw [payload, if_neg he] at h
        cases h
        obtain ⟨ts, hp, hm, ht⟩ := @ih (depthAfter depth token.kind) _ rfl
        refine ⟨token :: ts, .more (by simpa using he) hp, ?_, congrArg (token :: ·) ht⟩
        rw [List.map_cons, ← hm]
  · rintro ⟨ts, h, rfl, rfl⟩
    induction h with
    | @done depth hb =>
      cases rest with
      | nil => rfl
      | cons token rest =>
        have he : endsPayload depth token.kind = true := hb token rfl
        simp [payload, he]
    | @more depth token tokens ht _ ih => simp [payload, ht, ih]

theorem genericPayload_eq_iff {tokens rest : List Token} {text : Option String} :
    genericPayload tokens = (text, rest) ↔
      (text = none ∧ tokens = rest ∧ Without .colon rest) ∨
        ∃ colon ts, colon.kind = .colon ∧ Payload rest 0 ts ∧
          text = some (" ".intercalate (ts.map Token.text)) ∧ tokens = colon :: (ts ++ rest) := by
  cases tokens with
  | nil =>
    constructor
    · intro h
      cases h
      exact .inl ⟨rfl, rfl, without_nil _⟩
    · rintro (⟨rfl, rfl, -⟩ | ⟨_, _, _, _, _, h⟩)
      · rfl
      · cases h
  | cons token tokens =>
    by_cases hk : token.kind = .colon
    · rw [genericPayload, if_pos hk]
      constructor
      · intro h
        cases h
        obtain ⟨ts, hp, ht, he⟩ := (payload_eq_iff 0).1 (rfl : payload 0 tokens = _)
        exact .inr ⟨token, ts, hk, hp, by rw [ht], congrArg (token :: ·) he⟩
      · rintro (⟨-, rfl, hw⟩ | ⟨colon, ts, -, hp, rfl, h⟩)
        · exact absurd hk (without_cons.1 hw)
        · cases h
          have he := (payload_eq_iff 0).2 ⟨ts, hp, rfl, rfl⟩
          simp [he]
    · rw [genericPayload, if_neg hk]
      constructor
      · intro h
        cases h
        exact .inl ⟨rfl, rfl, without_cons.2 hk⟩
      · rintro (⟨rfl, rfl, -⟩ | ⟨colon, ts, hc, -, -, h⟩)
        · rfl
        · cases h
          exact absurd hc hk

/-- A word without a meaning and the payload behind it are a modifier. -/
theorem isModifier_of_genericPayload {word : Token} {more rest : List Token}
    {text : Option String} (hw : word.kind = .identifier) (ht : word.text ∉ knownWords)
    (h : genericPayload more = (text, rest)) :
    ∃ ts, IsModifier rest ts (.generic word.text text) ∧ word :: more = ts ++ rest := by
  rcases genericPayload_eq_iff.1 h with ⟨rfl, rfl, hb⟩ | ⟨colon, ts, hc, hp, rfl, rfl⟩
  · exact ⟨[word], .bare hw ht hb, rfl⟩
  · exact ⟨word :: colon :: ts, .payload hw ht hc hp, rfl⟩

theorem isModifier_of_modifier {p : String} {tokens rest : List Token} {m : Modifier}
    (h : modifier p tokens = .ok (m, rest)) :
    ∃ ts, IsModifier rest ts m ∧ tokens = ts ++ rest := by
  unfold modifier at h
  split at h
  · simp at h
  · next word more he =>
    obtain ⟨hk, rfl⟩ := expect_eq_ok_iff.1 he
    have hw : word.kind = .identifier := by simpa using hk
    split at h
    · next ht =>
      split at h
      · simp at h
      · next colon others hc =>
        obtain ⟨hcolon, rfl⟩ := expect_eq_ok_iff.1 hc
        obtain ⟨⟨terms, r⟩, hr, he⟩ := map_eq_ok_iff.1 h
        cases he
        obtain ⟨ts, hs, rfl⟩ := sortTerms_eq_ok_iff.1 hr
        exact ⟨word :: colon :: ts, .sort hw ht (by simpa using hcolon) hs, rfl⟩
    · next hns =>
      split at h
      · next ht =>
        split at h
        · simp at h
        · next colon others hc =>
          obtain ⟨hcolon, rfl⟩ := expect_eq_ok_iff.1 hc
          obtain ⟨⟨arguments, r⟩, hr, he⟩ := map_eq_ok_iff.1 h
          cases he
          obtain ⟨ts, ha, rfl⟩ := (limitArguments_eq_ok_iff _).1 hr
          exact ⟨word :: colon :: ts, .limit hw ht (by simpa using hcolon) ha, rfl⟩
      · next hnl =>
        split at h
        · next ht =>
          cases h
          exact ⟨[word], .randomize hw ht, rfl⟩
        · next hnr =>
          have ht : word.text ∉ knownWords := by simp [knownWords, hns, hnl, hnr]
          cases h
          exact isModifier_of_genericPayload hw ht rfl

theorem modifier_of_isModifier {p : String} {behind tokens : List Token} {m : Modifier}
    (h : IsModifier behind tokens m) : modifier p (tokens ++ behind) = .ok (m, behind) := by
  have expect_one : ∀ {kind : Kind} {phrase : Phrase} {token : Token} {more : List Token},
      token.kind = kind → expect [kind] phrase (token :: more) = .ok (token, more) :=
    fun hk => expect_eq_ok_iff.2 ⟨by simp [hk], rfl⟩
  cases h with
  | @sort word colon tokens terms hw ht hc h =>
    have hs := sortTerms_of_terms (.sortOf p) h
    simp [modifier, expect_one hw, ht, expect_one hc, hs, Except.map]
  | @limit word colon tokens offset count hw ht hc h =>
    have ha := (limitArguments_eq_ok_iff (.limitOf p)).2 ⟨tokens, h, rfl⟩
    simp [modifier, expect_one hw, ht, expect_one hc, ha, Except.map]
  | @randomize word hw ht => simp [modifier, expect_one hw, ht]
  | @bare word hw ht hb =>
    simp only [knownWords, List.mem_cons, List.not_mem_nil, or_false, not_or] at ht
    have hg : genericPayload behind = (none, behind) :=
      genericPayload_eq_iff.2 (.inl ⟨rfl, rfl, hb⟩)
    simp [modifier, expect_one hw, ht, hg]
  | @payload word colon tokens hw ht hc h =>
    simp only [knownWords, List.mem_cons, List.not_mem_nil, or_false, not_or] at ht
    have hg : genericPayload (colon :: (tokens ++ behind)) =
        (some (" ".intercalate (tokens.map Token.text)), behind) :=
      genericPayload_eq_iff.2 (.inr ⟨colon, tokens, hc, h, rfl, rfl⟩)
    simp [modifier, expect_one hw, ht, hg]

theorem modifier_eq_ok_iff {p : String} {tokens rest : List Token} {m : Modifier} :
    modifier p tokens = .ok (m, rest) ↔ ∃ ts, IsModifier rest ts m ∧ tokens = ts ++ rest := by
  constructor
  · exact isModifier_of_modifier
  · rintro ⟨ts, h, rfl⟩
    exact modifier_of_isModifier h

theorem derived_of_modifiers {p : String} {tokens rest : List Token} {ms : List Modifier}
    (h : modifiers p tokens = .ok (ms, rest)) :
    ∃ ts, Modifiers rest ts ms ∧ tokens = ts ++ rest := by
  fun_induction modifiers p tokens generalizing ms rest with
  | case1 =>
    cases h
    exact ⟨[], .done (without_nil _), rfl⟩
  | case2 => simp at h
  | case3 pipe tokens hp m more hm ih =>
    obtain ⟨⟨ms, r⟩, hr, he⟩ := map_eq_ok_iff.1 h
    cases he
    obtain ⟨us, hu, rfl⟩ := ih hr
    obtain ⟨ts, ht, rfl⟩ := modifier_eq_ok_iff.1 hm
    exact ⟨pipe :: (ts ++ us), .more hp ht hu, by simp⟩
  | case4 pipe tokens hp =>
    cases h
    exact ⟨[], .done (without_cons.2 hp), rfl⟩

theorem modifiers_of_derived {p : String} {behind tokens : List Token} {ms : List Modifier}
    (h : Modifiers behind tokens ms) : modifiers p (tokens ++ behind) = .ok (ms, behind) := by
  induction h with
  | done hb =>
    rw [List.nil_append]
    unfold modifiers
    cases behind with
    | nil => rfl
    | cons token behind => exact if_neg (without_cons.1 hb)
  | @more pipe tokens rest m ms hp hm _ ih =>
    have ht : modifier p (tokens ++ (rest ++ behind)) = .ok (m, rest ++ behind) :=
      modifier_of_isModifier hm
    rw [List.cons_append, List.append_assoc]
    unfold modifiers
    rw [if_pos hp]
    split
    · next he =>
      rw [ht] at he
      cases he
    · next he =>
      rw [ht] at he
      cases he
      rw [ih]
      rfl

theorem modifiers_eq_ok_iff {p : String} {tokens rest : List Token} {ms : List Modifier} :
    modifiers p tokens = .ok (ms, rest) ↔ ∃ ts, Modifiers rest ts ms ∧ tokens = ts ++ rest := by
  constructor
  · exact derived_of_modifiers
  · rintro ⟨ts, h, rfl⟩
    exact modifiers_of_derived h

/-! ### Entities -/

theorem marked_eq_ok_iff {mark : Kind} {kinds : List Kind} (phrase : Phrase)
    {tokens rest : List Token} {text : Option String} :
    marked mark kinds phrase tokens = .ok (text, rest) ↔
      ∃ ts, Marked mark kinds rest ts text ∧ tokens = ts ++ rest := by
  constructor
  · intro h
    unfold marked at h
    split at h
    · cases h
      exact ⟨[], .absent (without_nil _), rfl⟩
    · next sign more =>
      split at h
      · next hs =>
        obtain ⟨⟨token, r⟩, hr, he⟩ := map_eq_ok_iff.1 h
        cases he
        obtain ⟨hk, rfl⟩ := expect_eq_ok_iff.1 hr
        exact ⟨[sign, token], .present hs hk, rfl⟩
      · next hs =>
        cases h
        exact ⟨[], .absent (without_cons.2 hs), rfl⟩
  · rintro ⟨ts, h, rfl⟩
    cases h with
    | absent hb =>
      cases rest with
      | nil => rfl
      | cons token rest => exact if_neg (without_cons.1 hb)
    | @present sign token hs ht =>
      have he : expect kinds phrase (token :: rest) = .ok (token, rest) :=
        expect_eq_ok_iff.2 ⟨ht, rfl⟩
      simp [marked, hs, he, Except.map]

theorem heading_eq_ok_iff {tokens rest : List Token} {e : Entity} :
    heading tokens = .ok (e, rest) ↔ ∃ ts, Heading rest ts e ∧ tokens = ts ++ rest := by
  constructor
  · intro h
    unfold heading at h
    split at h
    · simp at h
    · next p more hp =>
      split at h
      · simp at h
      · next identifier more' hi =>
        split at h
        · simp at h
        · next aliasName more'' ha =>
          obtain ⟨⟨ms, r⟩, hm, he⟩ := map_eq_ok_iff.1 h
          cases he
          obtain ⟨us, gm, rfl⟩ := modifiers_eq_ok_iff.1 hm
          obtain ⟨as, ga, rfl⟩ := (marked_eq_ok_iff _).1 ha
          obtain ⟨is, gi, rfl⟩ := (marked_eq_ok_iff _).1 hi
          obtain ⟨ps, gp, rfl⟩ := (path_eq_ok_iff _).1 hp
          refine ⟨ps ++ is ++ as ++ us, .mk ?_ ?_ ga gm, by simp⟩
          · simpa using gp
          · simpa using gi
  · rintro ⟨ts, h, rfl⟩
    obtain @⟨ps, is, as, ms, p, identifier, aliasName, modifiers, hp, hi, ha, hm⟩ := h
    have h1 := (path_eq_ok_iff .entity).2 ⟨ps, hp, rfl⟩
    have h2 := (marked_eq_ok_iff (.entityAt p)).2 ⟨is, hi, rfl⟩
    have h3 := (marked_eq_ok_iff (.entityAt p)).2 ⟨as, ha, rfl⟩
    have h4 := modifiers_of_derived (p := p) hm
    simp only [List.append_assoc] at h1 h2 h3 h4 ⊢
    simp [heading, h1, h2, h3, h4, Except.map]

/-- An entity is a heading and, behind an opening brace, a sub-query up to the closing one. -/
theorem entityWith_eq_ok_iff {f : List Token → Reading Query} {tokens rest : List Token}
    {e : Entity} :
    entityWith f tokens = .ok (e, rest) ↔
      (∃ ts, Heading rest ts e ∧ tokens = ts ++ rest ∧ Without .openCurly rest) ∨
        ∃ bare ts opening inner children closing,
          Heading (opening :: inner) ts bare ∧ opening.kind = .openCurly ∧
            inner ≠ [] ∧ f inner = .ok (children, closing :: rest) ∧
            closing.kind = .closeCurly ∧ e = { bare with children := some children } ∧
            tokens = ts ++ opening :: inner := by
  constructor
  · intro h
    unfold entityWith at h
    split at h
    · simp at h
    · next bare hh =>
      cases h
      obtain ⟨ts, gh, rfl⟩ := heading_eq_ok_iff.1 hh
      exact .inl ⟨ts, gh, rfl, without_nil _⟩
    · next bare opening inner hh =>
      obtain ⟨ts, gh, rfl⟩ := heading_eq_ok_iff.1 hh
      split at h
      · next ho =>
        split at h
        · simp at h
        · next children behind hq =>
          obtain ⟨⟨closing, r⟩, hr, he⟩ := map_eq_ok_iff.1 h
          cases he
          obtain ⟨hc, rfl⟩ := expect_eq_ok_iff.1 hr
          have hi : inner ≠ [] := by
            rintro rfl
            simp at hq
          rw [if_neg hi] at hq
          exact .inr ⟨bare, ts, opening, inner, children, closing, gh, ho, hi, hq,
            by simpa using hc, rfl, rfl⟩
      · next ho =>
        cases h
        exact .inl ⟨ts, gh, rfl, without_cons.2 ho⟩
  · rintro (⟨ts, gh, rfl, hb⟩ |
      ⟨bare, ts, opening, inner, children, closing, gh, ho, hi, hq, hc, rfl, rfl⟩)
    · have hh := heading_eq_ok_iff.2 ⟨ts, gh, rfl⟩
      unfold entityWith
      rw [hh]
      cases rest with
      | nil => rfl
      | cons token rest => exact if_neg (without_cons.1 hb)
    · have hh := heading_eq_ok_iff.2 ⟨ts, gh, rfl⟩
      have he : expect [.closeCurly] (.subQueryOf bare.path) (closing :: rest) =
          .ok (closing, rest) := expect_eq_ok_iff.2 ⟨by simp [hc], rfl⟩
      simp [entityWith, hh, ho, hi, hq, he, Except.map]

/-- An entity that is read is derived, if the sub-queries that are read are. -/
theorem isEntity_of_entityWith {f : List Token → Reading Query} {tokens rest : List Token}
    {entity : Entity}
    (hf : ∀ {inner behind children}, f inner = .ok (children, behind) →
      ∃ us, IsQuery behind us children ∧ inner = us ++ behind ∧ Query.DistinctAliases children)
    (h : entityWith f tokens = .ok (entity, rest)) :
    ∃ ts, IsEntity rest ts entity ∧ tokens = ts ++ rest ∧
      ∀ children ∈ entity.children, Query.DistinctAliases children := by
  rcases entityWith_eq_ok_iff.1 h with ⟨ts, gh, rfl, hb⟩ |
    ⟨bare, ts, opening, inner, children, closing, gh, ho, -, hq, hc, rfl, rfl⟩
  · refine ⟨ts, .bare gh hb, rfl, ?_⟩
    cases gh
    simp
  · obtain ⟨us, gq, rfl, hd⟩ := hf hq
    refine ⟨_, .nested gh ho gq hc, by simp, ?_⟩
    intro children hc
    cases hc
    exact hd

/-- An entity that is derived is read, if the sub-queries of fewer tokens are. -/
theorem entityWith_of_isEntity {f : List Token → Reading Query} {behind ts : List Token}
    {entity : Entity}
    (hf : ∀ {inner after children}, IsQuery after inner children →
      (inner ++ after).length < (ts ++ behind).length → Query.DistinctAliases children →
      f (inner ++ after) = .ok (children, after))
    (h : IsEntity behind ts entity)
    (hd : ∀ children ∈ entity.children, Query.DistinctAliases children) :
    entityWith f (ts ++ behind) = .ok (entity, behind) := by
  cases h with
  | bare gh hb => exact entityWith_eq_ok_iff.2 (.inl ⟨ts, gh, rfl, hb⟩)
  | @nested _ ts inner opening closing bare children gh ho gq hk =>
    have hq : f (inner ++ closing :: behind) = .ok (children, closing :: behind) := by
      refine hf gq ?_ (hd children rfl)
      simp only [List.length_append, List.length_cons, List.length_nil]
      omega
    exact entityWith_eq_ok_iff.2 (.inr ⟨bare, ts, opening, _, children, closing, gh, ho,
      by simp, hq, hk, rfl, by simp⟩)

/-! ### Queries -/

/-- What the parser reads behind these siblings derives the entities that it adds to them, and
no alias occurs twice. -/
theorem isQuery_of_entities {bound : Nat} {siblings query : Query} {tokens rest : List Token}
    (h : entities bound siblings tokens = .ok (query, rest)) (hs : siblings.aliases.Nodup) :
    ∃ ts others, IsQuery rest ts others ∧ tokens = ts ++ rest ∧ query = siblings ++ others ∧
      query.aliases.Nodup ∧ Query.DistinctBelow others := by
  induction bound generalizing siblings query tokens rest with
  | zero => simp [entities] at h
  | succ bound ih =>
    unfold entities at h
    split at h
    · simp at h
    · next entity more he =>
      have hsub : ∀ {inner behind children}, entities bound [] inner = .ok (children, behind) →
          ∃ us, IsQuery behind us children ∧ inner = us ++ behind ∧
            Query.DistinctAliases children := by
        intro inner behind children hq
        obtain ⟨us, others, gq, rfl, rfl, hn, hb⟩ := ih hq List.nodup_nil
        exact ⟨us, gq, rfl, hn, hb⟩
      obtain ⟨ts, ge, rfl, hd⟩ := isEntity_of_entityWith hsub he
      split at h
      · simp at h
      · next hn =>
        have hn' : (siblings ++ [entity]).aliases.Nodup := Query.nodup_aliases_concat hs hn
        split at h
        · cases h
          exact ⟨ts, [entity], .last ge (without_nil _), rfl, rfl, hn',
            Query.distinctBelow_cons.2 ⟨hd, Query.distinctBelow_nil⟩⟩
        · next comma more =>
          split at h
          · next hc =>
            obtain ⟨us, others, gq, rfl, rfl, hn, hb⟩ := ih h hn'
            refine ⟨ts ++ comma :: us, entity :: others, .more ge hc gq, by simp, by simp, hn,
              Query.distinctBelow_cons.2 ⟨hd, hb⟩⟩
          · next hc =>
            cases h
            exact ⟨ts, [entity], .last ge (without_cons.2 hc), rfl, rfl, hn',
              Query.distinctBelow_cons.2 ⟨hd, Query.distinctBelow_nil⟩⟩

/-- Entities that tokens derive are read behind siblings that share no alias with them. -/
theorem entities_of_isQuery {bound : Nat} {siblings others : Query} {behind tokens : List Token}
    (h : IsQuery behind tokens others) (hb : (tokens ++ behind).length < bound)
    (hn : (siblings ++ others).aliases.Nodup) (hd : Query.DistinctBelow others) :
    entities bound siblings (tokens ++ behind) = .ok (siblings ++ others, behind) := by
  induction bound generalizing siblings others behind tokens with
  | zero => omega
  | succ bound ih =>
    -- a sub-query has fewer tokens than its entity
    have read : ∀ {behind ts : List Token} {entity : Entity}, IsEntity behind ts entity →
        (ts ++ behind).length < bound + 1 →
        (∀ children ∈ entity.children, Query.DistinctAliases children) →
        entityWith (entities bound []) (ts ++ behind) = .ok (entity, behind) := by
      intro behind ts entity he hl hc
      refine entityWith_of_isEntity ?_ he hc
      intro inner after children gq hlt hd
      have hq : entities bound [] (inner ++ after) = .ok ([] ++ children, after) :=
        ih gq (by omega) hd.1 hd.2
      rwa [List.nil_append] at hq
    cases h with
    | @last _ _ entity he hc =>
      have hr := read he hb (Query.distinctBelow_cons.1 hd).1
      have ha : entity.aliasName ∉ siblings.aliases := Query.not_mem_aliases_of_nodup hn
      unfold entities
      rw [hr]
      cases behind with
      | nil => simp [ha]
      | cons token behind => simp [ha, without_cons.1 hc]
    | @more _ ts rest comma entity query he hc gq =>
      obtain ⟨hd, hds⟩ := Query.distinctBelow_cons.1 hd
      have hl : (ts ++ comma :: (rest ++ behind)).length < bound + 1 := by simpa using hb
      have hr := read he hl hd
      have ha : entity.aliasName ∉ siblings.aliases := Query.not_mem_aliases_of_nodup hn
      have hn' : (siblings ++ [entity] ++ query).aliases.Nodup := by simpa using hn
      have hq : entities bound (siblings ++ [entity]) (rest ++ behind) =
          .ok (siblings ++ [entity] ++ query, behind) := by
        refine ih gq ?_ hn' hds
        simp only [List.length_append, List.length_cons] at hl ⊢
        omega
      rw [List.append_assoc, List.cons_append]
      unfold entities
      rw [hr]
      simp only [ha, if_false, hc, if_true, hq]
      simp

end Parser

open Grammar

/-- The grammar derives no query from no tokens. -/
theorem Grammar.ne_nil_of_isQuery {behind tokens : List Token} {query : Query}
    (h : IsQuery behind tokens query) : tokens ≠ [] := by
  have heading_ne : ∀ {behind ts : List Token} {entity : Entity}, Heading behind ts entity →
      ts ≠ [] := by
    intro behind ts entity h
    obtain ⟨⟨names, hn, -⟩, -, -, -⟩ := h
    cases hn <;> simp
  have entity_ne : ∀ {behind ts : List Token} {entity : Entity}, IsEntity behind ts entity →
      ts ≠ [] := by
    intro behind ts entity h
    cases h with
    | bare h _ => exact heading_ne h
    | nested h _ _ _ => simp
  cases h with
  | last h _ => exact entity_ne h
  | more h _ _ => simp

/-- All tokens together are a query exactly if they derive it and no two siblings share an
alias; no tokens at all are the empty query. -/
theorem parseTokens_eq_ok_iff {tokens : List Token} {query : Query} :
    parseTokens tokens = .ok query ↔
      tokens = [] ∧ query = [] ∨ IsQuery [] tokens query ∧ query.DistinctAliases := by
  unfold parseTokens
  split
  · next ht =>
    subst ht
    constructor
    · intro h
      cases h
      exact .inl ⟨rfl, rfl⟩
    · rintro (⟨-, rfl⟩ | ⟨h, -⟩)
      · rfl
      · exact absurd rfl (ne_nil_of_isQuery h)
  · next ht =>
    constructor
    · intro h
      split at h
      · simp at h
      · next q hq =>
        cases h
        obtain ⟨ts, others, gq, rfl, rfl, hn, hd⟩ := Parser.isQuery_of_entities hq List.nodup_nil
        rw [List.append_nil]
        exact .inr ⟨gq, hn, hd⟩
      · simp at h
    · rintro (⟨h, -⟩ | ⟨gq, hn, hd⟩)
      · exact absurd h ht
      · have hq : Parser.query (tokens ++ []) = .ok ([] ++ query, []) :=
          Parser.entities_of_isQuery gq (by simp) hn hd
        rw [List.append_nil, List.nil_append] at hq
        rw [hq]

theorem parse_of_scan {text : String} {tokens : List Token} (h : scan text = .ok tokens) :
    parse text = parseTokens tokens := by
  rw [parse, h]

/-- **The parser accepts exactly the grammar.** A text says a query exactly if it splits into
tokens that derive the query and no two siblings share an alias, or if it has no tokens and the
query is empty. -/
theorem parse_eq_ok_iff {text : String} {query : Query} :
    parse text = .ok query ↔
      ∃ tokens, scan text = .ok tokens ∧
        (tokens = [] ∧ query = [] ∨ IsQuery [] tokens query ∧ query.DistinctAliases) := by
  unfold parse
  split
  · next hs => simp [hs]
  · next tokens hs => simp [hs, parseTokens_eq_ok_iff]

/-- The empty text says the empty query, which the grammar alone does not derive. -/
theorem blank_text_not_derived :
    ¬ (parse "" = .ok [] ↔
      ∃ tokens, scan "" = .ok tokens ∧ IsQuery [] tokens [] ∧ Query.DistinctAliases []) := by
  have hs : scan "" = .ok [] := by simp [scan, scanFrom]
  have hp : parse "" = .ok [] := by simp [parse, hs, parseTokens]
  intro h
  obtain ⟨tokens, ht, gq, -⟩ := h.1 hp
  rw [hs] at ht
  cases ht
  exact ne_nil_of_isQuery gq rfl

end NestedQuery
