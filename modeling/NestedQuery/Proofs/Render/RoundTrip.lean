/-
# What can be parsed is what can be written

A written query is scanned as tokens that derive it (`Query.scans_chars`), so
parsing gives every well-formed query back (`parse_of_wellFormed`). Conversely the
tokens of a text are spelled (`spelling_of_mem_scanFrom`), and whatever
spelled tokens derive is well-formed (`Grammar.wellFormed_of_isQuery`). So
the parser's results are exactly the well-formed queries
(`exists_parse_iff_wellFormed`).

Key definitions: `Spelled`.
Key theorems: `Query.scans_chars`, `parse_of_wellFormed`,
`Grammar.wellFormed_of_isQuery`, `exists_parse_iff_wellFormed`.
-/
import NestedQuery.Proofs.Grammar.Exact
import NestedQuery.Proofs.Layout
import NestedQuery.Proofs.Render

namespace NestedQuery

open Grammar

/-! ### Written tokens -/

theorem content_escape (text : List Char) : Content '"' (escape text) text := by
  induction text with
  | nil => exact .nil
  | cons c text ih =>
    unfold escape
    split
    · next hc =>
      refine .escaped ?_ ih
      rcases hc with rfl | rfl <;> rfl
    · next hc =>
      simp only [not_or] at hc
      exact .plain hc.1 hc.2 ih

theorem spelling_literal (text : String) : Spelling (literal text) .string text.toList :=
  .string (.inl rfl) (content_escape _)

theorem isDigits_toDigits (n : Nat) : IsDigits (Nat.toDigits 10 n) :=
  ⟨Nat.toDigits_ne_nil, fun _ hc => Nat.isDigit_of_mem_toDigits (by decide) (by decide) hc⟩

theorem spelling_toDigits {n : Nat} (h : n < wordSize) :
    Spelling (Nat.toDigits 10 n) .integer (Nat.toDigits 10 n) :=
  .integer (isDigits_toDigits n) (by rwa [Numeral.value_toDigits])

theorem word?_toDigits {n : Nat} (h : n < wordSize) :
    Numeral.word? (Nat.toDigits 10 n) = some n := by
  have hd := isDigits_toDigits n
  refine Numeral.word?_eq_some_iff.2 ⟨hd.1, List.all_eq_true.2 hd.2, ?_, ?_⟩
  · rwa [Numeral.value_toDigits]
  · exact Numeral.value_toDigits n

theorem ofWord_mem_nameKinds (word : String) : Kind.ofWord word ∈ Parser.nameKinds := by
  unfold Kind.ofWord
  split
  · decide
  · split <;> decide

theorem ofWord_of_isIdentifier {word : String} (h : IsIdentifier word) :
    Kind.ofWord word = .identifier := by
  simp [Kind.ofWord, h.2.1, h.2.2]

/-- A name with a blank behind it is scanned as one token. -/
theorem scans_name {word : String} (h : IsName word) (p : Nat) :
    Scans p (spaced word.toList) [⟨Kind.ofWord word, word, p⟩] := by
  have hs := Scans.spaced (p := p) (Spelling.word h)
  rwa [String.ofList_toList] at hs

theorem scans_identifier {word : String} (h : IsIdentifier word) (p : Nat) :
    Scans p (spaced word.toList) [⟨.identifier, word, p⟩] := by
  have hs := scans_name h.1 p
  rwa [ofWord_of_isIdentifier h] at hs

theorem scans_literal (text : String) (p : Nat) :
    Scans p (spaced (literal text)) [⟨.string, text, p⟩] := by
  have hs := Scans.spaced (p := p) (spelling_literal text)
  rwa [String.ofList_toList] at hs

theorem scans_punctuation {c : Char} {kind : Kind} (h : Kind.punctuation? c = some kind)
    (p : Nat) :
    Scans p (spaced [c]) [⟨kind, String.ofList [c], p⟩] :=
  Scans.spaced (.punctuation h)

/-- What is asked of the grammar is only the kind of a punctuation token. -/
theorem scans_sign {c : Char} {kind : Kind} (h : Kind.punctuation? c = some kind) (p : Nat) :
    ∃ token, token.kind = kind ∧ Scans p (spaced [c]) [token] :=
  ⟨_, rfl, scans_punctuation h p⟩

/-! ### What may follow -/

/-- The first of the tokens, if there is one, is of one of these kinds. -/
def Begins (kinds : List Kind) (tokens : List Token) : Prop :=
  ∀ token ∈ tokens.head?, token.kind ∈ kinds

/-- May stand behind a modifier that is no sort. -/
def afterModifier : List Kind := [.pipe, .openCurly, .closeCurly, .comma]

/-- May stand behind an entity that does not end in a sort, or begin its sub-query. -/
def afterHeading : List Kind := [.openCurly, .closeCurly, .comma]

/-- May stand behind an entity that does not end in a sort. -/
def afterEntity : List Kind := [.closeCurly, .comma]

section

variable {kinds others : List Kind} {tokens : List Token}

theorem begins_nil : Begins kinds [] := by
  intro first hf
  cases hf

theorem begins_cons {token : Token} (h : token.kind ∈ kinds) : Begins kinds (token :: tokens) := by
  intro first hf
  cases hf
  exact h

theorem Begins.mono (h : Begins kinds tokens) (hs : kinds ⊆ others) : Begins others tokens :=
  fun token ht => hs (h token ht)

theorem Begins.without (h : Begins kinds tokens) {kind : Kind} (hk : kind ∉ kinds) :
    Without kind tokens := by
  intro token ht he
  exact hk (he ▸ h token ht)

end

/-! ### Paths -/

theorem toList_intercalate_cons {sep : String} {c : Char} (h : sep.toList = [c])
    (name other : String) (names : List String) :
    (sep.intercalate (name :: other :: names)).toList =
      name.toList ++ c :: (sep.intercalate (other :: names)).toList := by
  rw [String.intercalate_cons_cons, String.toList_append, String.toList_append, List.append_assoc,
    h]
  rfl

/-- Names joined by points are laid out as the tokens of a path. -/
theorem Layout.names : ∀ {names : List String} {p : Nat} {cs : List Char} {us : List Token},
    names ≠ [] → (∀ name ∈ names, IsName name) → (∀ c ∈ cs.head?, Separates c) →
    Layout (p + (".".intercalate names).toList.length) cs us →
    ∃ ts, Layout p ((".".intercalate names).toList ++ cs) (ts ++ us) ∧
      ∀ behind, Without .dot behind → Names behind ts names
  | [], _, _, _, hne, _, _, _ => absurd rfl hne
  | [name], p, _, _, _, hn, hs, h => by
    rw [String.intercalate_singleton] at h ⊢
    rw [String.length_toList] at h
    refine ⟨[⟨Kind.ofWord name, name, p⟩], ?_, fun behind hb => ?_⟩
    · exact .word (hn name List.mem_cons_self) (fun c hc => (hs c hc).1) h
    · exact .last (ofWord_mem_nameKinds name) fun dot hd hj => hb dot hd hj.1
  | name :: other :: names, p, cs, us, _, hn, hs, h => by
    rw [toList_intercalate_cons (c := '.') rfl] at h ⊢
    have hplace : p + (name.toList ++ '.' :: (".".intercalate (other :: names)).toList).length =
        p + name.length + 1 + (".".intercalate (other :: names)).toList.length := by
      simp only [List.length_append, List.length_cons, String.length_toList]
      omega
    rw [hplace] at h
    obtain ⟨ts, hts, hnames⟩ := Layout.names (List.cons_ne_nil _ _)
      (fun n hmem => hn n (List.mem_cons_of_mem _ hmem)) hs h
    refine ⟨⟨Kind.ofWord name, name, p⟩ :: ⟨.dot, ".", p + name.length⟩ :: ts, ?_, ?_⟩
    · rw [List.append_assoc]
      refine .word (hn name List.mem_cons_self) ?_ (.sign rfl hts)
      rintro _ ⟨⟩
      decide
    · exact fun behind hb => .dot (ofWord_mem_nameKinds name) ⟨rfl, rfl⟩ (hnames behind hb)

/-- A path is laid out as the tokens that derive it. -/
theorem IsPath.layout {path : String} (h : IsPath path) {p : Nat} {cs : List Char}
    {us : List Token} (hs : ∀ c ∈ cs.head?, Separates c)
    (hl : Layout (p + path.toList.length) cs us) :
    ∃ ts, Layout p (path.toList ++ cs) (ts ++ us) ∧
      ∀ behind, Without .dot behind → Path behind ts path := by
  obtain ⟨names, hne, hn, rfl⟩ := h
  obtain ⟨ts, hts, hnames⟩ := Layout.names hne hn hs hl
  exact ⟨ts, hts, fun behind hb => ⟨names, hnames behind hb, rfl⟩⟩

theorem IsPath.layout_alone {path : String} (h : IsPath path) (p : Nat) :
    ∃ ts, Layout p path.toList ts ∧ ∀ behind, Without .dot behind → Path behind ts path := by
  have hend : ∀ c ∈ ([] : List Char).head?, Separates c := fun c hc => nomatch hc
  obtain ⟨ts, hts, hpath⟩ := h.layout hend (.done (p := p + path.toList.length) blank_nil)
  rw [List.append_nil, List.append_nil] at hts
  exact ⟨ts, hts, hpath⟩

theorem scans_path {path : String} (h : IsPath path) (p : Nat) :
    ∃ ts, Scans p (spaced path.toList) ts ∧ ∀ behind, Without .dot behind → Path behind ts path := by
  obtain ⟨ts, hts, hpath⟩ := h.layout_alone p
  exact ⟨ts, hts.scans_spaced, hpath⟩

/-! ### Modifiers -/

theorem scans_term {term : SortTerm} (h : term.WellFormed) (p : Nat) :
    ∃ ts, Scans p term.chars ts ∧ ∀ behind, Term behind ts term := by
  obtain ⟨path, d⟩ := term
  obtain ⟨hp, hd⟩ := h
  have hword : IsIdentifier d.word ∧ SortDirection.ofWord d.word = d := by
    cases d with
    | ascending => exact ⟨by decide, rfl⟩
    | descending => exact ⟨by decide, rfl⟩
    | custom word =>
      obtain ⟨hi, hasc, hdesc⟩ := hd
      exact ⟨hi, by simp [SortDirection.ofWord, SortDirection.word, hasc, hdesc]⟩
  obtain ⟨ts, hs, hg⟩ := scans_path hp p
  refine ⟨_, hs.append (scans_identifier hword.1 _), ?_⟩
  intro behind
  have hpath := hg (⟨.identifier, d.word, p + (spaced path.toList).length⟩ :: behind)
    (without_cons.2 (by simp))
  have hterm := Term.directed hpath rfl
  rwa [hword.2] at hterm

theorem scans_terms : ∀ (terms : List SortTerm) (p : Nat), terms ≠ [] →
    (∀ term ∈ terms, term.WellFormed) →
    ∃ ts, Scans p (termsChars terms) ts ∧ ∀ behind, Without .comma behind → Terms behind ts terms
  | [], _, hne, _ => absurd rfl hne
  | [term], p, _, h => by
    obtain ⟨ts, hs, hg⟩ := scans_term (h term List.mem_cons_self) p
    exact ⟨ts, hs, fun behind hb => .last (hg behind) hb⟩
  | term :: other :: terms, p, _, h => by
    obtain ⟨ts, hs, hg⟩ := scans_term (h term List.mem_cons_self) p
    obtain ⟨us, hu, gu⟩ := scans_terms (other :: terms)
      (p + term.chars.length + (spaced [',']).length) (by simp) fun t ht => h t (List.mem_cons_of_mem _ ht)
    refine ⟨_, hs.append ((scans_punctuation rfl _).append hu), ?_⟩
    intro behind hb
    exact .more (hg _) rfl (gu behind hb)

theorem scans_size {n : Nat} (h : n < wordSize) (p : Nat) :
    ∃ token, Scans p (spaced (Nat.toDigits 10 n)) [token] ∧ Size token n := by
  refine ⟨_, Scans.spaced (spelling_toDigits h), rfl, ?_⟩
  rw [String.toList_ofList]
  exact word?_toDigits h

/-- Both arguments of a limit are written, so nothing behind them belongs to it. -/
theorem scans_arguments {offset : Nat} {count : Option Nat} (ho : offset < wordSize)
    (hc : ∀ n ∈ count, n < wordSize) (p : Nat) :
    ∃ ts, Scans p (spaced (Nat.toDigits 10 offset) ++ (spaced [','] ++ spaced (countChars count)))
        ts ∧ ∀ behind, Arguments behind ts (offset, count) := by
  obtain ⟨first, hs, hg⟩ := scans_size ho p
  cases count with
  | none =>
    have null : IsName "null" := by decide
    refine ⟨_, hs.append ((scans_punctuation rfl _).append (scans_name null _)),
      ?_⟩
    intro behind
    exact .offset hg rfl rfl
  | some n =>
    obtain ⟨second, hs', hg'⟩ := scans_size (hc n rfl)
      (p + (spaced (Nat.toDigits 10 offset)).length + (spaced [',']).length)
    refine ⟨_, hs.append ((scans_punctuation rfl _).append hs'), ?_⟩
    intro behind
    exact .offsetAndCount hg rfl hg'

theorem scans_modifier {m : Modifier} (h : m.WellFormed) (p : Nat) :
    ∃ ts, Scans p m.chars ts ∧ ∀ behind, Begins afterModifier behind →
      ((∃ terms, m = .sort terms) → Without .comma behind) → IsModifier behind ts m := by
  have hcolon : ∀ q, Scans q (spaced [':']) [⟨.colon, ":", q⟩] :=
    fun q => scans_punctuation (rfl : Kind.punctuation? ':' = some .colon) q
  cases m with
  | sort terms =>
    obtain ⟨hne, ht⟩ := h
    have hw := scans_identifier (by decide : IsIdentifier "sort") p
    obtain ⟨ts, hs, hg⟩ := scans_terms terms
      (p + (spaced "sort".toList).length + (spaced [':']).length) hne ht
    refine ⟨_, hw.append ((hcolon _).append hs), ?_⟩
    intro behind _ hb
    exact .sort rfl rfl rfl (hg behind (hb ⟨terms, rfl⟩))
  | limit offset count =>
    obtain ⟨ho, hc⟩ := h
    have hw := scans_identifier (by decide : IsIdentifier "limit") p
    obtain ⟨ts, hs, hg⟩ := scans_arguments ho hc
      (p + (spaced "limit".toList).length + (spaced [':']).length)
    refine ⟨_, hw.append ((hcolon _).append hs), ?_⟩
    intro behind _ _
    exact .limit rfl rfl rfl (hg behind)
  | randomize =>
    refine ⟨_, scans_identifier (by decide : IsIdentifier "randomize") p, ?_⟩
    intro behind _ _
    exact .randomize rfl rfl
  | generic keyword payload =>
    obtain ⟨hk, hknown⟩ := h
    have hw := scans_identifier hk p
    cases payload with
    | none =>
      refine ⟨_, hw, ?_⟩
      intro behind hb _
      exact .bare rfl hknown (hb.without (by decide))
    | some payload =>
      refine ⟨_, hw.append ((hcolon _).append (scans_literal _ _)), ?_⟩
      intro behind hb _
      have hp : Payload behind 0
          [⟨.string, payload, p + (spaced keyword.toList).length + (spaced [':']).length⟩] := by
        refine .more rfl (.done ?_)
        intro token ht
        have hends : ∀ kind ∈ afterModifier, Parser.endsPayload 0 kind = true := by decide
        exact hends _ (hb token ht)
      have htext : payload = " ".intercalate [payload] := String.intercalate_singleton.symm
      rw [htext]
      exact .payload rfl hknown rfl hp

/-! ### Entities -/

theorem without_append_modifiers {behind ts : List Token} {ms : List Modifier} {kind : Kind}
    (h : Modifiers behind ts ms) (hk : kind ≠ .pipe) (hb : Without kind behind) :
    Without kind (ts ++ behind) := by
  cases h with
  | done _ => exact hb
  | more hp _ _ => exact without_cons.2 (by rw [hp]; exact Ne.symm hk)

theorem without_append_marked {mark kind : Kind} {kinds : List Kind} {behind ts : List Token}
    {text : Option String} (h : Marked mark kinds behind ts text) (hk : kind ≠ mark)
    (hb : Without kind behind) : Without kind (ts ++ behind) := by
  cases h with
  | absent _ => exact hb
  | present hs _ => exact without_cons.2 (by rw [hs]; exact Ne.symm hk)

theorem scans_modifiers : ∀ (ms : List Modifier) (p : Nat), (∀ m ∈ ms, m.WellFormed) →
    ∃ ts, Scans p (modifiersChars ms) ts ∧ ∀ behind, Begins afterHeading behind →
      (LastIsSort ms → Without .comma behind) → Modifiers behind ts ms
  | [], p, _ => ⟨[], Scans.nil p, fun _ hb _ => .done (hb.without (by decide))⟩
  | m :: ms, p, h => by
    obtain ⟨ts, hs, hg⟩ := scans_modifier (h m List.mem_cons_self) (p + (spaced ['|']).length)
    obtain ⟨us, hu, gu⟩ := scans_modifiers ms (p + (spaced ['|']).length + m.chars.length)
      fun n hn => h n (List.mem_cons_of_mem _ hn)
    refine ⟨_, (scans_punctuation rfl _).append (hs.append hu), ?_⟩
    intro behind hb hsort
    have hrest : Modifiers behind us ms := by
      refine gu behind hb ?_
      rintro ⟨terms, ht⟩
      exact hsort ⟨terms, by rw [List.getLast?_cons, ht]; rfl⟩
    show Modifiers behind (⟨.pipe, "|", p⟩ :: (ts ++ us)) (m :: ms)
    refine .more rfl (hg (us ++ behind) ?_ ?_) hrest
    · cases hrest with
      | done _ => exact hb.mono (by decide)
      | more hp _ _ => exact begins_cons (by rw [hp]; decide)
    · rintro ⟨terms, rfl⟩
      cases hrest with
      | done _ => exact hsort ⟨terms, rfl⟩
      | more hp _ _ => exact without_cons.2 (by simp [hp])

theorem scans_identifierChars (identifier : Option String) (p : Nat) :
    ∃ ts, Scans p (identifierChars identifier) ts ∧ ∀ behind, Without .sharp behind →
      Marked .sharp [.integer, .identifier, .string] behind ts identifier := by
  cases identifier with
  | none => exact ⟨[], Scans.nil p, fun _ hb => .absent hb⟩
  | some text =>
    exact ⟨_, (scans_punctuation rfl _).append (scans_literal _ _), fun _ _ => .present rfl (by simp)⟩

theorem scans_aliasChars {path aliasName : String} (h : aliasName = path ∨ IsIdentifier aliasName)
    (p : Nat) :
    ∃ ts text, Scans p (aliasChars path aliasName) ts ∧ text.getD path = aliasName ∧
      ∀ behind, Without .asKeyword behind → Marked .asKeyword [.identifier] behind ts text := by
  unfold aliasChars
  by_cases he : aliasName = path
  · rw [if_pos he]
    exact ⟨[], none, Scans.nil p, he.symm, fun _ hb => .absent hb⟩
  · rw [if_neg he]
    have hi : IsIdentifier aliasName := h.resolve_left he
    have hw := scans_name (by decide : IsName "as") p
    exact ⟨_, some aliasName, hw.append (scans_identifier hi _), rfl, fun _ _ => .present rfl (by simp)⟩

theorem scans_heading {aliasName path : String} {identifier : Option String}
    {ms : List Modifier} {children : Option Query}
    (h : Entity.HeadingWellFormed ⟨aliasName, path, identifier, children, ms⟩) (p : Nat) :
    ∃ ts, Scans p (headingChars aliasName path identifier ms) ts ∧
      ∀ behind, Begins afterHeading behind → (LastIsSort ms → Without .comma behind) →
        Heading behind ts ⟨aliasName, path, identifier, none, ms⟩ := by
  obtain ⟨hp, ha, hm⟩ := h
  dsimp only at hp ha hm
  obtain ⟨ps, hps, gps⟩ := scans_path hp p
  obtain ⟨is, his, gis⟩ := scans_identifierChars identifier (p + (spaced path.toList).length)
  obtain ⟨as, text, has, rfl, gas⟩ := scans_aliasChars ha
    (p + (spaced path.toList).length + (identifierChars identifier).length)
  obtain ⟨us, hus, gus⟩ := scans_modifiers ms (p + (spaced path.toList).length +
    (identifierChars identifier).length + (aliasChars path (text.getD path)).length) hm
  refine ⟨ps ++ (is ++ (as ++ us)), hps.append (his.append (has.append hus)), ?_⟩
  intro behind hb hsort
  have hmods := gus behind hb hsort
  have hmarked := gas (us ++ behind)
    (without_append_modifiers hmods (by decide) (hb.without (by decide)))
  have without_behind : ∀ {kind : Kind}, kind ≠ .asKeyword → kind ≠ .pipe →
      kind ∉ afterHeading → Without kind (as ++ (us ++ behind)) :=
    fun h1 h2 h3 => without_append_marked hmarked h1
      (without_append_modifiers hmods h2 (hb.without h3))
  have hident := gis (as ++ (us ++ behind)) (without_behind (by decide) (by decide) (by decide))
  have hpath := gps (is ++ (as ++ (us ++ behind)))
    (without_append_marked hident (by decide) (without_behind (by decide) (by decide) (by decide)))
  have hh : Heading behind (ps ++ is ++ as ++ us)
      ⟨text.getD path, path, identifier, none, ms⟩ :=
    .mk (by simpa using hpath) (by simpa using hident) hmarked hmods
  simpa using hh

/-! ### Queries -/

mutual

/-- A written entity is scanned as tokens that derive it. -/
theorem Entity.scans_chars : ∀ (entity : Entity) (p : Nat), entity.WellFormed →
    (∀ children ∈ entity.children, ∀ e ∈ Query.preorder children, e.WellFormed) →
    ∃ ts, Scans p entity.chars ts ∧ ∀ behind, Begins afterEntity behind →
      (entity.EndsInSort → Without .comma behind) → IsEntity behind ts entity
  | ⟨aliasName, path, identifier, none, modifiers⟩, p, h, _ => by
    obtain ⟨ts, hs, hg⟩ := scans_heading h.1 p
    refine ⟨ts, hs, ?_⟩
    intro behind hb hsort
    have hh := hg behind (hb.mono (by decide)) fun hl => hsort ⟨rfl, hl⟩
    exact .bare hh (hb.without (by decide))
  | ⟨aliasName, path, identifier, some children, modifiers⟩, p, h, hbelow => by
    obtain ⟨ts, hs, hg⟩ := scans_heading h.1 p
    obtain ⟨hne, hsep⟩ := h.2 children rfl
    obtain ⟨us, hu, gu⟩ := Query.scans_chars children
      (p + (headingChars aliasName path identifier modifiers).length + (spaced ['\x7b']).length)
      hne ⟨hsep, hbelow children rfl⟩
    obtain ⟨opening, ho, hopen⟩ := scans_sign (rfl : Kind.punctuation? '\x7b' = some .openCurly)
      (p + (headingChars aliasName path identifier modifiers).length)
    obtain ⟨closing, hc, hclose⟩ := scans_sign (rfl : Kind.punctuation? '\x7d' = some .closeCurly)
      (p + (headingChars aliasName path identifier modifiers).length + (spaced ['\x7b']).length +
        (Query.chars children).length)
    refine ⟨_, hs.append (hopen.append (hu.append hclose)), ?_⟩
    intro behind _ _
    have hh : Heading (opening :: (us ++ closing :: behind)) ts
        ⟨aliasName, path, identifier, none, modifiers⟩ := by
      refine hg _ (begins_cons ?_) fun _ => without_cons.2 (by simp [ho])
      rw [ho]
      decide
    have hq : IsQuery (closing :: behind) us children :=
      gu _ (begins_cons (List.mem_singleton.2 hc))
    simpa using IsEntity.nested hh ho hq hc

/-- A written query is scanned as tokens that derive it. -/
theorem Query.scans_chars : ∀ (query : List Entity) (p : Nat), query ≠ [] →
    Query.WellFormed query →
    ∃ ts, Scans p (Query.chars query) ts ∧
      ∀ behind, Begins [.closeCurly] behind → IsQuery behind ts query
  | [], _, hne, _ => absurd rfl hne
  | [entity], p, _, h => by
    obtain ⟨⟨he, hbelow⟩, -⟩ := Query.forall_preorder_cons.1 h.2
    obtain ⟨ts, hs, hg⟩ := Entity.scans_chars entity p he hbelow
    refine ⟨ts, hs, ?_⟩
    intro behind hb
    have hcomma : Without .comma behind := hb.without (by decide)
    exact .last (hg behind (hb.mono (by decide)) fun _ => hcomma) hcomma
  | entity :: other :: query, p, _, h => by
    obtain ⟨⟨he, hbelow⟩, hq⟩ := Query.forall_preorder_cons.1 h.2
    obtain ⟨ts, hs, hg⟩ := Entity.scans_chars entity p he hbelow
    obtain ⟨hn, hsort⟩ := h.1
    have hsep : Query.Separable (other :: query) :=
      ⟨(List.nodup_cons.1 hn).2, fun e hm => hsort e (List.mem_cons_of_mem _ hm)⟩
    obtain ⟨us, hu, gu⟩ := Query.scans_chars (other :: query)
      (p + entity.chars.length + (spaced [',']).length) (by simp) ⟨hsep, hq⟩
    refine ⟨_, hs.append ((scans_punctuation rfl _).append hu), ?_⟩
    intro behind hb
    have hlast : ¬ entity.EndsInSort := hsort entity List.mem_cons_self
    have hcomma : Kind.comma ∈ afterEntity := by decide
    exact .more (hg _ (begins_cons hcomma) fun h => absurd h hlast) rfl (gu behind hb)

end

/-! ### What is derived is well-formed -/

/-- Every token has a written form. -/
def Spelled (tokens : List Token) : Prop :=
  ∀ token ∈ tokens, ∃ w, Spelling w token.kind token.text.toList

theorem Spelled.of_subset {ts us : List Token} (h : Spelled us) (hs : ts ⊆ us) : Spelled ts :=
  fun token ht => h token (hs ht)

theorem isWord_of_spelling {w text : List Char} {kind : Kind} (h : Spelling w kind text)
    (hk : kind ∈ Parser.nameKinds) : IsWord text ∧ kind = Kind.ofWord (String.ofList text) := by
  cases h with
  | word h => exact ⟨h, rfl⟩
  | integer _ _ => exact absurd hk (by decide)
  | float _ _ => exact absurd hk (by decide)
  | string _ _ => exact absurd hk (by decide)
  | punctuation hp =>
    unfold Kind.punctuation? at hp
    split at hp <;> cases hp <;> exact absurd hk (by decide)

theorem Spelled.isName {tokens : List Token} {token : Token} (h : Spelled tokens)
    (ht : token ∈ tokens) (hk : token.kind ∈ Parser.nameKinds) : IsName token.text := by
  obtain ⟨w, hw⟩ := h token ht
  exact (isWord_of_spelling hw hk).1

theorem Spelled.isIdentifier {tokens : List Token} {token : Token} (h : Spelled tokens)
    (ht : token ∈ tokens) (hk : token.kind = .identifier) : IsIdentifier token.text := by
  obtain ⟨w, hw⟩ := h token ht
  obtain ⟨hword, hkind⟩ := isWord_of_spelling hw (by rw [hk]; decide)
  rw [String.ofList_toList, hk] at hkind
  refine ⟨hword, ?_, ?_⟩
  · intro he
    rw [he] at hkind
    exact absurd hkind (by decide)
  · intro he
    rw [he] at hkind
    exact absurd hkind (by decide)

namespace Grammar

theorem isName_of_names {behind ts : List Token} {names : List String}
    (h : Names behind ts names) (hs : Spelled ts) :
    names ≠ [] ∧ ∀ name ∈ names, IsName name := by
  induction h with
  | last hn _ =>
    refine ⟨by simp, ?_⟩
    intro n hm
    rw [List.mem_singleton.1 hm]
    exact hs.isName List.mem_cons_self hn
  | @dot name dot tokens names hn _ _ ih =>
    refine ⟨by simp, ?_⟩
    intro n hm
    rcases List.mem_cons.1 hm with rfl | hm
    · exact hs.isName List.mem_cons_self hn
    · exact (ih (hs.of_subset fun t ht => by simp [ht])).2 n hm

theorem isPath_of_path {behind ts : List Token} {path : String} (h : Path behind ts path)
    (hs : Spelled ts) : IsPath path := by
  obtain ⟨names, hn, rfl⟩ := h
  obtain ⟨hne, hnames⟩ := isName_of_names hn hs
  exact ⟨names, hne, hnames, rfl⟩

theorem wellFormed_ofWord {word : String} (h : IsIdentifier word) :
    (SortDirection.ofWord word).WellFormed := by
  unfold SortDirection.ofWord
  split
  · trivial
  · next hasc =>
    split
    · trivial
    · next hdesc => exact ⟨h, hasc, hdesc⟩

theorem wellFormed_of_term {behind ts : List Token} {term : SortTerm} (h : Term behind ts term)
    (hs : Spelled ts) : term.WellFormed := by
  cases h with
  | bare hp _ => exact ⟨isPath_of_path hp hs, trivial⟩
  | directed hp hw =>
    refine ⟨isPath_of_path hp (hs.of_subset (by simp)), ?_⟩
    exact wellFormed_ofWord (hs.isIdentifier (by simp) hw)

theorem wellFormed_of_terms {behind ts : List Token} {terms : List SortTerm}
    (h : Terms behind ts terms) (hs : Spelled ts) :
    terms ≠ [] ∧ ∀ term ∈ terms, term.WellFormed := by
  induction h with
  | last ht _ =>
    refine ⟨by simp, ?_⟩
    intro term hm
    rw [List.mem_singleton.1 hm]
    exact wellFormed_of_term ht hs
  | more ht _ _ ih =>
    refine ⟨by simp, ?_⟩
    intro term hm
    rcases List.mem_cons.1 hm with rfl | hm
    · exact wellFormed_of_term ht (hs.of_subset (by simp))
    · exact (ih (hs.of_subset fun t ht => by simp [ht])).2 term hm

theorem lt_wordSize_of_size {token : Token} {n : Nat} (h : Size token n) : n < wordSize := by
  obtain ⟨-, -, hv, rfl⟩ := Numeral.word?_eq_some_iff.1 h.2
  exact hv

theorem lt_wordSize_of_arguments {behind ts : List Token} {offset : Nat} {count : Option Nat}
    (h : Arguments behind ts (offset, count)) :
    offset < wordSize ∧ ∀ n ∈ count, n < wordSize := by
  cases h with
  | count hn _ =>
    refine ⟨by decide, ?_⟩
    intro n hm
    cases hm
    exact lt_wordSize_of_size hn
  | offsetAndCount hm _ hn =>
    refine ⟨lt_wordSize_of_size hm, ?_⟩
    intro n hm
    cases hm
    exact lt_wordSize_of_size hn
  | offset hm _ _ => exact ⟨lt_wordSize_of_size hm, by simp⟩

theorem wellFormed_of_isModifier {behind ts : List Token} {m : Modifier}
    (h : IsModifier behind ts m) (hs : Spelled ts) : m.WellFormed := by
  cases h with
  | sort _ _ _ h => exact wellFormed_of_terms h (hs.of_subset fun t ht => by simp [ht])
  | limit _ _ _ h => exact lt_wordSize_of_arguments h
  | randomize _ _ => trivial
  | bare hw ht _ => exact ⟨hs.isIdentifier (by simp) hw, ht⟩
  | payload hw ht _ _ => exact ⟨hs.isIdentifier (by simp) hw, ht⟩

theorem wellFormed_of_modifiers {behind ts : List Token} {ms : List Modifier}
    (h : Modifiers behind ts ms) (hs : Spelled ts) : ∀ m ∈ ms, m.WellFormed := by
  induction h with
  | done _ => simp
  | more _ hm _ ih =>
    intro m hmem
    rcases List.mem_cons.1 hmem with rfl | hmem
    · exact wellFormed_of_isModifier hm (hs.of_subset fun t ht => by simp [ht])
    · exact ih (hs.of_subset fun t ht => by simp [ht]) m hmem

/-- A comma behind sort terms would belong to them. -/
theorem without_comma_of_terms {behind ts : List Token} {terms : List SortTerm}
    (h : Terms behind ts terms) : Without .comma behind := by
  induction h with
  | last _ hb => exact hb
  | more _ _ _ ih => exact ih

theorem without_comma_of_modifiers {behind ts : List Token} {ms : List Modifier}
    (h : Modifiers behind ts ms) (hl : LastIsSort ms) : Without .comma behind := by
  induction h with
  | done _ =>
    obtain ⟨terms, ht⟩ := hl
    cases ht
  | more _ hm hr ih =>
    obtain ⟨terms, ht⟩ := hl
    cases hr with
    | done _ =>
      cases ht
      cases hm with
      | sort _ _ _ h => exact without_comma_of_terms h
    | more _ _ _ => exact ih ⟨terms, by rw [← ht, List.getLast?_cons_cons]⟩

theorem wellFormed_of_heading {behind ts : List Token} {entity : Entity}
    (h : Heading behind ts entity) (hs : Spelled ts) :
    entity.HeadingWellFormed ∧ entity.children = none := by
  obtain @⟨ps, is, as, ms, path, identifier, aliasName, modifiers, hp, -, ha, hm⟩ := h
  refine ⟨⟨isPath_of_path hp (hs.of_subset fun t ht => by simp [ht]), ?_,
    wellFormed_of_modifiers hm (hs.of_subset fun t ht => by simp [ht])⟩, rfl⟩
  cases ha with
  | absent _ => exact .inl rfl
  | @present sign token _ hk =>
    have hmem : token ∈ ps ++ is ++ [sign, token] ++ ms := by simp
    exact .inr (hs.isIdentifier hmem (by simpa using hk))

mutual

/-- Whatever spelled tokens derive as an entity is well-formed, at every depth; if it ends in a
sort, no comma follows. -/
theorem wellFormed_of_isEntity : ∀ (entity : Entity) {behind ts : List Token},
    IsEntity behind ts entity → Spelled ts →
    (∀ children ∈ entity.children, Query.DistinctAliases children) →
    (entity.WellFormed ∧
      ∀ children ∈ entity.children, ∀ e ∈ Query.preorder children, e.WellFormed) ∧
      (entity.EndsInSort → Without .comma behind)
  | ⟨aliasName, path, identifier, none, modifiers⟩, behind, ts, h, hs, _ => by
    cases h with
    | bare hh _ =>
      refine ⟨⟨⟨(wellFormed_of_heading hh hs).1, by simp⟩, by simp⟩, ?_⟩
      rintro ⟨-, hl⟩
      cases hh with
      | mk _ _ _ hm => exact without_comma_of_modifiers hm hl
  | ⟨aliasName, path, identifier, some children, modifiers⟩, behind, ts, h, hs, hd => by
    cases h with
    | bare hh _ => exact absurd (wellFormed_of_heading hh hs).2 (by simp)
    | nested hh _ hq _ =>
      have hchildren := wellFormed_of_isQuery children hq
        (hs.of_subset fun t ht => by simp [ht]) (hd children rfl)
      refine ⟨⟨⟨?_, ?_⟩, ?_⟩, ?_⟩
      · exact (wellFormed_of_heading hh (hs.of_subset fun t ht => by simp [ht])).1
      · rintro _ ⟨rfl⟩
        refine ⟨?_, hchildren.1⟩
        cases hq <;> simp
      · rintro _ ⟨rfl⟩
        exact hchildren.2
      · rintro ⟨hn, -⟩
        cases hn

/-- Whatever spelled tokens derive as a query is well-formed if its aliases are distinct. -/
theorem wellFormed_of_isQuery : ∀ (query : List Entity) {behind ts : List Token},
    IsQuery behind ts query → Spelled ts → Query.DistinctAliases query → Query.WellFormed query
  | [], _, _, h, _, _ => by cases h
  | entity :: query, behind, ts, h, hs, ⟨hn, hd⟩ => by
    obtain ⟨hchildren, hothers⟩ := Query.distinctBelow_cons.1 hd
    cases h with
    | last he _ =>
      obtain ⟨hw, -⟩ := wellFormed_of_isEntity entity he hs hchildren
      refine ⟨⟨hn, by simp⟩, Query.forall_preorder_cons.2 ⟨hw, ?_⟩⟩
      simp [Query.preorder]
    | more he hc hq =>
      obtain ⟨hw, hsort⟩ := wellFormed_of_isEntity entity he
        (hs.of_subset fun t ht => by simp [ht]) hchildren
      have hrest := wellFormed_of_isQuery query hq (hs.of_subset fun t ht => by simp [ht])
        ⟨(List.nodup_cons.1 hn).2, hothers⟩
      refine ⟨⟨hn, ?_⟩, Query.forall_preorder_cons.2 ⟨hw, hrest.2⟩⟩
      intro e hm
      rcases query with _ | ⟨other, query⟩
      · cases hm
      · rcases List.mem_cons.1 hm with rfl | hm
        · exact fun hl => without_cons.1 (hsort hl) hc
        · exact hrest.1.2 e hm

end

end Grammar

/-! ### The image of the parser -/

/-- Parsing gives every well-formed query back. -/
theorem parse_of_wellFormed {query : Query} (h : query.WellFormed) :
    parse query.render = .ok query := by
  unfold parse scan Query.render
  rw [String.toList_ofList]
  by_cases hne : query = []
  · subst hne
    rw [Query.chars, scanFrom]
    rfl
  · obtain ⟨ts, hs, hg⟩ := Query.scans_chars query 0 hne h
    rw [hs.scanFrom_eq]
    refine parseTokens_eq_ok_iff.2 (.inr ⟨hg [] begins_nil, h.1.1, ?_⟩)
    exact fun e he children hc => ((h.2 e he).2 children hc).2.1

/-- What a text says is empty or well-formed. -/
theorem wellFormed_of_parse {text : String} {query : Query} (h : parse text = .ok query) :
    query.WellFormed := by
  unfold parse at h
  split at h
  · simp at h
  · next tokens hs =>
    rcases parseTokens_eq_ok_iff.1 h with ⟨-, rfl⟩ | ⟨hq, hd⟩
    · exact Query.wellFormed_nil
    · exact wellFormed_of_isQuery query hq (spelling_of_mem_scanFrom hs) hd

/-- **The image of the parser.** A query is what some text says exactly if it is empty or
well-formed, and then its rendering is such a text. -/
theorem exists_parse_iff_wellFormed (query : Query) :
    ((∃ text, parse text = .ok query) ↔ query = [] ∨ query.WellFormed) ∧
      (parse query.render = .ok query ↔ query = [] ∨ query.WellFormed) := by
  have hempty : query = [] ∨ query.WellFormed ↔ query.WellFormed := by
    refine ⟨?_, .inr⟩
    rintro (rfl | h)
    · exact Query.wellFormed_nil
    · exact h
  rw [hempty]
  constructor
  · exact ⟨fun ⟨_, h⟩ => wellFormed_of_parse h, fun h => ⟨_, parse_of_wellFormed h⟩⟩
  · exact ⟨wellFormed_of_parse, parse_of_wellFormed⟩

end NestedQuery
