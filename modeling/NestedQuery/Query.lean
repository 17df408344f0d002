/-
# Queries

A query is a sequence of entities. An entity names a value by its property
path, may ask for one item of it by an identifier, says under which alias the
value is stored, lists the modifiers to run on it and may hold a sub-query
that is applied to it first. Aliases are the keys of the result, so those of
one query are distinct.

Key definitions: `SortDirection`, `SortTerm`, `Modifier`, `Entity`, `Query`,
`Query.insert`, `Query.preorder`.
-/
namespace NestedQuery

/-- The direction of a sort term. -/
inductive SortDirection where
  | ascending
  | descending
  /-- A word kept for comparators of one's own; it sorts as ascending. -/
  | custom (word : String)
  deriving DecidableEq

namespace SortDirection

/-- The direction that a word in a sort term names. -/
def ofWord (word : String) : SortDirection :=
  if word = "asc" then ascending else if word = "desc" then descending else custom word

/-- The word for a direction. -/
def word : SortDirection → String
  | ascending => "asc"
  | descending => "desc"
  | custom word => word

/-- Only the descending direction reverses the order. -/
def isAscending : SortDirection → Bool
  | descending => false
  | _ => true

@[simp] theorem ofWord_word_ascending : ofWord ascending.word = ascending := rfl

@[simp] theorem ofWord_word_descending : ofWord descending.word = descending := rfl

@[simp] theorem word_ofWord (w : String) : (ofWord w).word = w := by
  unfold ofWord
  split
  · next h => exact h.symm
  · split
    · next h => exact h.symm
    · rfl

end SortDirection

/-- A property to sort by, with its direction. -/
structure SortTerm where
  property : String
  direction : SortDirection
  deriving DecidableEq

/-- A step run on the value of an entity. -/
inductive Modifier where
  /-- Sort by these terms; the first one that tells two items apart decides. -/
  | sort (terms : List SortTerm)
  /-- Keep `count` items from `offset` on, or all of them without a count. -/
  | limit (offset : Nat) (count : Option Nat)
  /-- Shuffle the items. -/
  | randomize
  /-- Any other keyword, with the text behind its colon. -/
  | generic (keyword : String) (payload : Option String)
  deriving DecidableEq

/-- The word a modifier is written with. -/
def Modifier.keyword : Modifier → String
  | sort _ => "sort"
  | limit _ _ => "limit"
  | randomize => "randomize"
  | generic keyword _ => keyword

/-- One term of a query. -/
structure Entity where
  /-- The key of the value in the result. -/
  aliasName : String
  /-- Where the value is found. -/
  path : String
  /-- The item asked for, which data sources look up. -/
  identifier : Option String := none
  /-- The sub-query applied to the value. -/
  children : Option (List Entity) := none
  /-- The steps run on the value, in order. -/
  modifiers : List Modifier := []

/-- Sibling entities in the order in which they were declared. -/
abbrev Query := List Entity

namespace Query

/-- The aliases of the entities, in order. -/
def aliases (query : Query) : List String := query.map Entity.aliasName

/-- The query with one more entity. One of the same alias gives up its place to it. -/
def insert : Query → Entity → Query
  | [], entity => [entity]
  | other :: query, entity =>
    if other.aliasName = entity.aliasName then entity :: query else other :: insert query entity

end Query

namespace Entity

/-- The entity of a property path and nothing else, which is its own alias. -/
def ofPath (path : String) : Entity := { aliasName := path, path := path }

/-- Whether the value is taken as it is. -/
def isLeaf (entity : Entity) : Bool :=
  match entity.children with
  | none => true
  | some children => children.isEmpty

end Entity

mutual

/-- The entity itself and then all below it. -/
def Entity.preorder : Entity → List Entity
  | ⟨aliasName, path, identifier, none, modifiers⟩ =>
    [⟨aliasName, path, identifier, none, modifiers⟩]
  | ⟨aliasName, path, identifier, some children, modifiers⟩ =>
    ⟨aliasName, path, identifier, some children, modifiers⟩ :: Query.preorder children

/-- All entities of a query, each one before those of its sub-query. -/
def Query.preorder : List Entity → List Entity
  | [] => []
  | entity :: query => entity.preorder ++ Query.preorder query

end

end NestedQuery
