/-
# The grammar of queries

What it means for tokens to derive a query, said without the parser: one
relation for each phrase of

    Query     ::= Entity ("," Entity)*
    Entity    ::= Path ["#" (integer | identifier | string)] ["as" identifier]
                  ("|" Modifier)* ["{" Query "}"]
    Path      ::= Name ("." Name)*
    Name      ::= identifier | "as" | "null"
    Modifier  ::= "sort" ":" Term ("," Term)*
                | "limit" ":" integer ["," (integer | "null")]
                | "randomize"
                | identifier [":" payload]
    Term      ::= Path [identifier]

Each relation holds of the tokens of the phrase, of what they say, and of the
tokens `behind` them. The latter make every choice maximal: an optional part
may be missing, and a repetition may end, only if what is behind does not
begin with one more.

Key definitions: `Grammar.Path`, `Grammar.Terms`, `Grammar.Payload`,
`Grammar.IsModifier`, `Grammar.Heading`, `Grammar.IsEntity`,
`Grammar.IsQuery`, `Query.DistinctAliases`.
-/
import NestedQuery.Query.Parser

namespace NestedQuery
namespace Grammar

/-- The tokens do not begin with one of this kind. -/
def Without (kind : Kind) (tokens : List Token) : Prop :=
  ∀ token ∈ tokens.head?, token.kind ≠ kind

theorem without_nil (kind : Kind) : Without kind [] := by
  intro token h
  cases h

@[simp] theorem without_cons {kind : Kind} {token : Token} {tokens : List Token} :
    Without kind (token :: tokens) ↔ token.kind ≠ kind := by
  simp [Without]

/-! ### Property paths -/

/-- A point that begins where this name ends. -/
def Joins (name dot : Token) : Prop := dot.kind = .dot ∧ dot.position = name.stop

/-- Names joined by points. -/
inductive Names (behind : List Token) : List Token → List String → Prop
  | last {name : Token} (hn : name.kind ∈ Parser.nameKinds)
      (hb : ∀ dot ∈ behind.head?, ¬ Joins name dot) : Names behind [name] [name.text]
  | dot {name dot : Token} {tokens : List Token} {names : List String}
      (hn : name.kind ∈ Parser.nameKinds) (hd : Joins name dot) (h : Names behind tokens names) :
      Names behind (name :: dot :: tokens) (name.text :: names)

/-- A property path. -/
def Path (behind tokens : List Token) (path : String) : Prop :=
  ∃ names, Names behind tokens names ∧ path = ".".intercalate names

/-! ### Modifiers -/

/-- A property to sort by, with the word for its direction if there is one. -/
inductive Term (behind : List Token) : List Token → SortTerm → Prop
  | bare {tokens : List Token} {path : String} (hp : Path behind tokens path)
      (hb : Without .identifier behind) : Term behind tokens ⟨path, .ascending⟩
  | directed {tokens : List Token} {word : Token} {path : String}
      (hp : Path (word :: behind) tokens path) (hw : word.kind = .identifier) :
      Term behind (tokens ++ [word]) ⟨path, .ofWord word.text⟩

/-- Sort terms separated by commas. -/
inductive Terms (behind : List Token) : List Token → List SortTerm → Prop
  | last {tokens : List Token} {term : SortTerm} (ht : Term behind tokens term)
      (hb : Without .comma behind) : Terms behind tokens [term]
  | more {tokens rest : List Token} {comma : Token} {term : SortTerm} {terms : List SortTerm}
      (ht : Term (comma :: (rest ++ behind)) tokens term) (hc : comma.kind = .comma)
      (hr : Terms behind rest terms) : Terms behind (tokens ++ comma :: rest) (term :: terms)

/-- An integer and the number below the word size that it denotes. -/
def Size (token : Token) (n : Nat) : Prop :=
  token.kind = .integer ∧ Numeral.word? token.text.toList = some n

/-- The offset and the count of a limit. -/
inductive Arguments (behind : List Token) : List Token → Nat × Option Nat → Prop
  | count {token : Token} {n : Nat} (hn : Size token n) (hb : Without .comma behind) :
      Arguments behind [token] (0, some n)
  | offsetAndCount {first comma second : Token} {m n : Nat} (hm : Size first m)
      (hc : comma.kind = .comma) (hn : Size second n) :
      Arguments behind [first, comma, second] (m, some n)
  | offset {first comma second : Token} {m : Nat} (hm : Size first m) (hc : comma.kind = .comma)
      (hn : second.kind = .nullKeyword) : Arguments behind [first, comma, second] (m, none)

/-- The longest run of tokens, from this depth of parentheses on, without a token that ends a
payload. -/
inductive Payload (behind : List Token) : Nat → List Token → Prop
  | done {depth : Nat} (hb : ∀ token ∈ behind.head?, Parser.endsPayload depth token.kind = true) :
      Payload behind depth []
  | more {depth : Nat} {token : Token} {tokens : List Token}
      (ht : Parser.endsPayload depth token.kind = false)
      (h : Payload behind (Parser.depthAfter depth token.kind) tokens) :
      Payload behind depth (token :: tokens)

/-- The words of the modifiers that have a grammar of their own. -/
def knownWords : List String := ["sort", "limit", "randomize"]

/-- A modifier, behind its `|`. -/
inductive IsModifier (behind : List Token) : List Token → Modifier → Prop
  | sort {word colon : Token} {tokens : List Token} {terms : List SortTerm}
      (hw : word.kind = .identifier) (ht : word.text = "sort") (hc : colon.kind = .colon)
      (h : Terms behind tokens terms) : IsModifier behind (word :: colon :: tokens) (.sort terms)
  | limit {word colon : Token} {tokens : List Token} {offset : Nat} {count : Option Nat}
      (hw : word.kind = .identifier) (ht : word.text = "limit") (hc : colon.kind = .colon)
      (h : Arguments behind tokens (offset, count)) :
      IsModifier behind (word :: colon :: tokens) (.limit offset count)
  | randomize {word : Token} (hw : word.kind = .identifier) (ht : word.text = "randomize") :
      IsModifier behind [word] .randomize
  | bare {word : Token} (hw : word.kind = .identifier) (ht : word.text ∉ knownWords)
      (hb : Without .colon behind) : IsModifier behind [word] (.generic word.text none)
  | payload {word colon : Token} {tokens : List Token} (hw : word.kind = .identifier)
      (ht : word.text ∉ knownWords) (hc : colon.kind = .colon) (h : Payload behind 0 tokens) :
      IsModifier behind (word :: colon :: tokens)
        (.generic word.text (some (" ".intercalate (tokens.map Token.text))))

/-- Modifiers, each behind a `|`. -/
inductive Modifiers (behind : List Token) : List Token → List Modifier → Prop
  | done (hb : Without .pipe behind) : Modifiers behind [] []
  | more {pipe : Token} {tokens rest : List Token} {m : Modifier} {ms : List Modifier}
      (hp : pipe.kind = .pipe) (hm : IsModifier (rest ++ behind) tokens m)
      (hr : Modifiers behind rest ms) : Modifiers behind (pipe :: (tokens ++ rest)) (m :: ms)

/-! ### Entities -/

/-- A token of one of these kinds behind one of the kind `mark`, or neither. -/
inductive Marked (mark : Kind) (kinds : List Kind) (behind : List Token) :
    List Token → Option String → Prop
  | absent (hb : Without mark behind) : Marked mark kinds behind [] none
  | present {sign token : Token} (hs : sign.kind = mark) (ht : token.kind ∈ kinds) :
      Marked mark kinds behind [sign, token] (some token.text)

/-- An entity without its sub-query. -/
inductive Heading (behind : List Token) : List Token → Entity → Prop
  | mk {ps is as ms : List Token} {path : String} {identifier aliasName : Option String}
      {modifiers : List Modifier} (hp : Path (is ++ as ++ ms ++ behind) ps path)
      (hi : Marked .sharp [.integer, .identifier, .string] (as ++ ms ++ behind) is identifier)
      (ha : Marked .asKeyword [.identifier] (ms ++ behind) as aliasName)
      (hm : Modifiers behind ms modifiers) :
      Heading behind (ps ++ is ++ as ++ ms)
        ⟨aliasName.getD path, path, identifier, none, modifiers⟩

mutual

/-- An entity. -/
inductive IsEntity : List Token → List Token → Entity → Prop
  | bare {behind tokens : List Token} {entity : Entity} (h : Heading behind tokens entity)
      (hb : Without .openCurly behind) : IsEntity behind tokens entity
  | nested {behind tokens inner : List Token} {opening closing : Token} {entity : Entity}
      {children : Query} (h : Heading (opening :: (inner ++ closing :: behind)) tokens entity)
      (ho : opening.kind = .openCurly) (hq : IsQuery (closing :: behind) inner children)
      (hc : closing.kind = .closeCurly) :
      IsEntity behind (tokens ++ opening :: inner ++ [closing])
        { entity with children := some children }

/-- Entities separated by commas. -/
inductive IsQuery : List Token → List Token → Query → Prop
  | last {behind tokens : List Token} {entity : Entity} (h : IsEntity behind tokens entity)
      (hb : Without .comma behind) : IsQuery behind tokens [entity]
  | more {behind tokens rest : List Token} {comma : Token} {entity : Entity} {query : Query}
      (h : IsEntity (comma :: (rest ++ behind)) tokens entity) (hc : comma.kind = .comma)
      (hq : IsQuery behind rest query) :
      IsQuery behind (tokens ++ comma :: rest) (entity :: query)

end

/-! ### The kinds of the tokens in a phrase -/

section Kinds

variable {behind ts : List Token}

theorem ne_of_kinds {kinds : List Kind} {kind : Kind} (h : ∀ t ∈ ts, t.kind ∈ kinds)
    (hk : kind ∉ kinds) : ∀ t ∈ ts, t.kind ≠ kind := fun t ht he => hk (he ▸ h t ht)

theorem Names.kinds {names : List String} (h : Names behind ts names) :
    ∀ t ∈ ts, t.kind ∈ Kind.dot :: Parser.nameKinds := by
  induction h with
  | last hn _ => exact List.forall_mem_singleton.2 (List.mem_cons_of_mem _ hn)
  | dot hn hd _ ih =>
    refine List.forall_mem_cons.2 ⟨List.mem_cons_of_mem _ hn, List.forall_mem_cons.2 ⟨?_, ih⟩⟩
    exact hd.1 ▸ List.mem_cons_self

theorem Path.kinds {path : String} (h : Path behind ts path) :
    ∀ t ∈ ts, t.kind ∈ Kind.dot :: Parser.nameKinds := by
  obtain ⟨names, hnames, -⟩ := h
  exact hnames.kinds

theorem Term.kinds {term : SortTerm} (h : Term behind ts term) :
    ∀ t ∈ ts, t.kind ∈ Kind.dot :: Parser.nameKinds := by
  cases h with
  | bare hp _ => exact hp.kinds
  | directed hp hw =>
    refine List.forall_mem_append.2 ⟨hp.kinds, List.forall_mem_singleton.2 ?_⟩
    rw [hw]
    decide

theorem Terms.kinds {terms : List SortTerm} (h : Terms behind ts terms) :
    ∀ t ∈ ts, t.kind ∈ Kind.comma :: .dot :: Parser.nameKinds := by
  induction h with
  | last ht _ => exact fun t hmem => List.mem_cons_of_mem _ (ht.kinds t hmem)
  | more ht hc _ ih =>
    refine List.forall_mem_append.2 ⟨fun t hmem => List.mem_cons_of_mem _ (ht.kinds t hmem), ?_⟩
    exact List.forall_mem_cons.2 ⟨hc ▸ List.mem_cons_self, ih⟩

theorem Arguments.kinds {r : Nat × Option Nat} (h : Arguments behind ts r) :
    ∀ t ∈ ts, t.kind ∈ [Kind.integer, .comma, .nullKeyword] := by
  cases h with
  | count hn _ => simp [hn.1]
  | offsetAndCount hm hc hn => simp [hm.1, hc, hn.1]
  | offset hm hc hn => simp [hm.1, hc, hn]

theorem Marked.kinds {mark : Kind} {kinds : List Kind} {text : Option String}
    (h : Marked mark kinds behind ts text) : ∀ t ∈ ts, t.kind ∈ mark :: kinds := by
  cases h with
  | absent _ => exact List.forall_mem_nil _
  | present hs ht =>
    refine List.forall_mem_cons.2 ⟨hs ▸ List.mem_cons_self, List.forall_mem_singleton.2 ?_⟩
    exact List.mem_cons_of_mem _ ht

end Kinds

end Grammar

/-! ### Aliases -/

namespace Query

theorem nodup_aliases_concat {siblings : Query} {entity : Entity} (hs : siblings.aliases.Nodup)
    (h : entity.aliasName ∉ siblings.aliases) : (siblings ++ [entity]).aliases.Nodup := by
  unfold aliases at hs h ⊢
  rw [List.map_append]
  exact (List.perm_append_singleton _ _).nodup_iff.2 (List.nodup_cons.2 ⟨h, hs⟩)

/-- An alias that occurs once is none of those in front of it. -/
theorem not_mem_aliases_of_nodup {siblings others : Query} {entity : Entity}
    (h : (siblings ++ entity :: others).aliases.Nodup) : entity.aliasName ∉ siblings.aliases := by
  intro hm
  unfold aliases at h hm
  rw [List.map_append, List.map_cons] at h
  exact (List.nodup_append.1 h).2.2 _ hm _ List.mem_cons_self rfl

/-- The aliases of every sub-query, at any depth, are pairwise distinct. -/
def DistinctBelow (query : Query) : Prop :=
  ∀ entity ∈ preorder query, ∀ children ∈ entity.children, (aliases children).Nodup

/-- The aliases of the query and of every sub-query are pairwise distinct. -/
def DistinctAliases (query : Query) : Prop := query.aliases.Nodup ∧ DistinctBelow query

theorem distinctBelow_nil : DistinctBelow [] := by
  intro entity h
  simp [preorder] at h

/-- What holds of all entities of a query holds of the first one, of those of its sub-query, and
of the others. -/
theorem forall_preorder_cons {P : Entity → Prop} {entity : Entity} {query : Query} :
    (∀ e ∈ preorder (entity :: query), P e) ↔
      (P entity ∧ ∀ children ∈ entity.children, ∀ e ∈ preorder children, P e) ∧
        ∀ e ∈ preorder query, P e := by
  obtain ⟨aliasName, path, identifier, children, modifiers⟩ := entity
  cases children with
  | none => simp [preorder, Entity.preorder]
  | some children =>
    simp only [preorder, Entity.preorder, List.mem_append, List.mem_cons, Option.mem_def,
      Option.some.injEq, forall_eq']
    constructor
    · intro h
      exact ⟨⟨h _ (.inl (.inl rfl)), fun e he => h e (.inl (.inr he))⟩, fun e he => h e (.inr he)⟩
    · rintro ⟨⟨h1, h2⟩, h3⟩ e ((rfl | he) | he)
      · exact h1
      · exact h2 e he
      · exact h3 e he

/-- So what holds of all entities holds of those that stand side by side, and below each. -/
theorem forall_preorder_of_mem {P : Entity → Prop} {query : Query}
    (h : ∀ e ∈ preorder query, P e) {entity : Entity} (he : entity ∈ query) :
    P entity ∧ ∀ children ∈ entity.children, ∀ e ∈ preorder children, P e := by
  induction query with
  | nil => cases he
  | cons other query ih =>
    obtain ⟨hother, hquery⟩ := forall_preorder_cons.1 h
    rcases List.mem_cons.1 he with rfl | he
    · exact hother
    · exact ih hquery he

theorem forall_preorder_of_subset {P : Entity → Prop} {query query' : Query}
    (h : ∀ e ∈ preorder query, P e) (hs : ∀ e ∈ query', e ∈ query) :
    ∀ e ∈ preorder query', P e := by
  induction query' with
  | nil => simp [preorder]
  | cons entity query' ih =>
    obtain ⟨hentity, hothers⟩ := List.forall_mem_cons.1 hs
    exact forall_preorder_cons.2 ⟨forall_preorder_of_mem h hentity, ih hothers⟩

/-- What lies below the entities of a query is what lies below each of them. -/
theorem distinctBelow_cons {entity : Entity} {query : Query} :
    DistinctBelow (entity :: query) ↔
      (∀ children ∈ entity.children, DistinctAliases children) ∧ DistinctBelow query := by
  unfold DistinctBelow
  rw [forall_preorder_cons]
  refine and_congr ?_ Iff.rfl
  constructor
  · exact fun h children hc => ⟨h.1 children hc, h.2 children hc⟩
  · exact fun h => ⟨fun children hc => (h children hc).1, fun children hc => (h children hc).2⟩

end Query
end NestedQuery
