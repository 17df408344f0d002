/-
# The outline of a query

A query described in JSON: an object by alias, with the path of each entity,
its identifier if it has one, its modifiers if there are any, and its
sub-query if one is written.

Key definitions: `Modifier.outline`, `Query.outline`.
-/
import NestedQuery.Json
import NestedQuery.Query

namespace NestedQuery

/-- A sort term: its property and the word for its direction. -/
def SortTerm.outline (term : SortTerm) : Json :=
  .array [.string term.property, .string term.direction.word]

/-- A modifier: an object with its keyword as only key, or the bare word `randomize`. -/
def Modifier.outline : Modifier → Json
  | sort terms => .object [("sort", .array (terms.map SortTerm.outline))]
  | limit offset count =>
    .object [("limit", .object [("offset", .integer offset),
      ("count", match count with
        | some n => .integer n
        | none => .null)])]
  | randomize => .string "randomize"
  | generic keyword payload => .object [(keyword, .ofText? payload)]

/-- The members that describe an entity apart from its sub-query. -/
def headingOutline (path : String) (identifier : Option String) (modifiers : List Modifier) :
    Entries Json :=
  ("path", .string path) ::
    (match identifier with
      | some text => [("identifier", .string text)]
      | none => []) ++
    (match modifiers with
      | [] => []
      | m :: ms => [("modifiers", .array ((m :: ms).map Modifier.outline))])

mutual

/-- The members that describe an entity. -/
def Entity.outline : Entity → Entries Json
  | ⟨_, path, identifier, none, modifiers⟩ => headingOutline path identifier modifiers
  | ⟨_, path, identifier, some children, modifiers⟩ =>
    headingOutline path identifier modifiers ++ [("children", .object (Query.outlines children))]

/-- What describes each entity, by alias. -/
def Query.outlines : List Entity → Entries Json
  | [] => []
  | ⟨aliasName, path, identifier, children, modifiers⟩ :: query =>
    (aliasName, .object (Entity.outline ⟨aliasName, path, identifier, children, modifiers⟩)) ::
      Query.outlines query

end

/-- The outline of a query. -/
def Query.outline (query : Query) : Json := .object (Query.outlines query)

end NestedQuery
