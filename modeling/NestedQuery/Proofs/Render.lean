/-
# Writing queries

The queries that can be written, and one way to write each of them: every
token with a blank behind it, identifiers and payloads as quoted texts, both
arguments of a limit, and the direction of every sort term. A comma behind a
sort modifier goes on with its terms, so an entity that ends in one cannot be
followed by a sibling unless a sub-query stands in between.

Key definitions: `IsName`, `IsIdentifier`, `IsPath`, `Modifier.WellFormed`,
`Entity.EndsInSort`, `Entity.WellFormed`, `Query.WellFormed`, `Query.render`.
-/
import NestedQuery.Proofs.Grammar
import NestedQuery.Proofs.Spelling

namespace NestedQuery

/-! ### Well-formed queries -/

/-- A word; the keywords are words, too. -/
def IsName (text : String) : Prop := IsWord text.toList

/-- A word that is no keyword. -/
def IsIdentifier (text : String) : Prop := IsName text ∧ text ≠ "as" ∧ text ≠ "null"

instance (text : String) : Decidable (IsName text) := inferInstanceAs (Decidable (IsWord _))

instance (text : String) : Decidable (IsIdentifier text) := inferInstanceAs (Decidable (_ ∧ _))

/-- One name or more, joined by points. -/
def IsPath (text : String) : Prop :=
  ∃ names, names ≠ [] ∧ (∀ name ∈ names, IsName name) ∧ text = ".".intercalate names

/-- A direction that a word names. -/
def SortDirection.WellFormed : SortDirection → Prop
  | custom word => IsIdentifier word ∧ word ≠ "asc" ∧ word ≠ "desc"
  | _ => True

/-- A path with a direction. -/
def SortTerm.WellFormed (term : SortTerm) : Prop :=
  IsPath term.property ∧ term.direction.WellFormed

/-- A modifier that can be written. -/
def Modifier.WellFormed : Modifier → Prop
  | sort terms => terms ≠ [] ∧ ∀ term ∈ terms, term.WellFormed
  | limit offset count => offset < wordSize ∧ ∀ n ∈ count, n < wordSize
  | randomize => True
  | generic keyword _ => IsIdentifier keyword ∧ keyword ∉ Grammar.knownWords

/-- The last of these modifiers is a sort. -/
def LastIsSort (modifiers : List Modifier) : Prop :=
  ∃ terms, modifiers.getLast? = some (.sort terms)

namespace Entity

/-- A comma behind the entity would go on with its sort terms. -/
def EndsInSort (entity : Entity) : Prop := entity.children = none ∧ LastIsSort entity.modifiers

/-- The path, the alias and the modifiers can be written. -/
def HeadingWellFormed (entity : Entity) : Prop :=
  IsPath entity.path ∧ (entity.aliasName = entity.path ∨ IsIdentifier entity.aliasName) ∧
    ∀ m ∈ entity.modifiers, m.WellFormed

end Entity

namespace Query

/-- Siblings that can be told apart and can be separated by commas. -/
def Separable (query : Query) : Prop :=
  query.aliases.Nodup ∧ ∀ entity ∈ query.dropLast, ¬ entity.EndsInSort

end Query

/-- The entity without what lies below its sub-query: a heading, and children that are not
empty. -/
def Entity.WellFormed (entity : Entity) : Prop :=
  entity.HeadingWellFormed ∧ ∀ children ∈ entity.children, children ≠ [] ∧ Query.Separable children

/-- Every entity, at any depth, is well-formed, and so are the siblings at the top. -/
def Query.WellFormed (query : Query) : Prop :=
  Query.Separable query ∧ ∀ entity ∈ Query.preorder query, entity.WellFormed

theorem Query.wellFormed_nil : Query.WellFormed [] :=
  ⟨⟨List.nodup_nil, by simp⟩, by simp [Query.preorder]⟩

/-! ### The renderer -/

/-- A written token with a blank behind it. -/
def spaced (cs : List Char) : List Char := cs ++ [' ']

/-- A text with a backslash before each quote and each backslash. -/
def escape : List Char → List Char
  | [] => []
  | c :: cs => if c = '"' ∨ c = '\\' then '\\' :: c :: escape cs else c :: escape cs

/-- A text between quotes. -/
def literal (text : String) : List Char := '"' :: (escape text.toList ++ ['"'])

/-- A sort term with its direction. -/
def SortTerm.chars (term : SortTerm) : List Char :=
  spaced term.property.toList ++ spaced term.direction.word.toList

/-- Sort terms with commas between them. -/
def termsChars : List SortTerm → List Char
  | [] => []
  | [term] => term.chars
  | term :: other :: terms => term.chars ++ (spaced [','] ++ termsChars (other :: terms))

/-- The count of a limit. -/
def countChars : Option Nat → List Char
  | some n => Nat.toDigits 10 n
  | none => "null".toList

/-- A modifier, behind its `|`. -/
def Modifier.chars : Modifier → List Char
  | sort terms => spaced "sort".toList ++ (spaced [':'] ++ termsChars terms)
  | limit offset count =>
    spaced "limit".toList ++ (spaced [':'] ++
      (spaced (Nat.toDigits 10 offset) ++ (spaced [','] ++ spaced (countChars count))))
  | randomize => spaced "randomize".toList
  | generic keyword none => spaced keyword.toList
  | generic keyword (some payload) =>
    spaced keyword.toList ++ (spaced [':'] ++ spaced (literal payload))

/-- Modifiers, each behind a `|`. -/
def modifiersChars : List Modifier → List Char
  | [] => []
  | m :: ms => spaced ['|'] ++ (m.chars ++ modifiersChars ms)

/-- An identifier behind its `#`. -/
def identifierChars : Option String → List Char
  | none => []
  | some text => spaced ['#'] ++ spaced (literal text)

/-- An alias that is not the path itself. -/
def aliasChars (path aliasName : String) : List Char :=
  if aliasName = path then [] else spaced "as".toList ++ spaced aliasName.toList

/-- An entity without its sub-query. -/
def headingChars (aliasName path : String) (identifier : Option String)
    (modifiers : List Modifier) : List Char :=
  spaced path.toList ++
    (identifierChars identifier ++ (aliasChars path aliasName ++ modifiersChars modifiers))

mutual

/-- An entity. -/
def Entity.chars : Entity → List Char
  | ⟨aliasName, path, identifier, none, modifiers⟩ =>
    headingChars aliasName path identifier modifiers
  | ⟨aliasName, path, identifier, some children, modifiers⟩ =>
    headingChars aliasName path identifier modifiers ++
      (spaced ['\x7b'] ++ (Query.chars children ++ spaced ['\x7d']))

/-- Entities with commas between them. -/
def Query.chars : List Entity → List Char
  | [] => []
  | [entity] => entity.chars
  | entity :: other :: query => entity.chars ++ (spaced [','] ++ Query.chars (other :: query))

end

/-- The text of a query. -/
def Query.render (query : Query) : String := String.ofList (Query.chars query)

example :
    Query.render [⟨"me", "users", some "42", none, [.limit 0 (some 5)]⟩] =
      "users # \"42\" as me | limit : 0 , 5 " := by
  decide

end NestedQuery
