/-
# Sources of data

A source of named tables that queries can be applied to. All rows of a table
are handed out as a collection; the item with an identifier is the first row
whose id field is that text, or the whole number of that decimal numeral.
Rows that are objects are handed out as records of the table's name. Nothing
is handed out of a table that the source does not have, which reads as
`null`.

Records and collections are handed out under handles that differ from row to
row and from table to table and begin at a number of the caller's choice.

Key definitions: `Source`, `Source.ofJson`, `Source.fetchAll`,
`Source.fetchOne`, `Source.resolve`, `Source.toRoot`.
-/
import NestedQuery.Evaluator
import NestedQuery.Value.Json

namespace NestedQuery

/-- Named tables of rows. -/
structure Source where
  name : String
  /-- The property that identifiers are compared with. -/
  idField : String := "id"
  tables : Entries (List Value) := []

namespace Source

/-- The source with one more table, or with other rows for it. -/
def withTable (source : Source) (table : String) (rows : List Value) : Source :=
  { source with tables := source.tables.insert table rows }

/-- The members of a JSON object that are arrays, as tables. -/
def ofJson (name : String) : Json → Source
  | .object members =>
    { name := name, tables := members.filterMap fun (key, j) =>
        match j with
        | .array rows => some (key, Value.itemsOfJson rows)
        | _ => none }
  | _ => { name := name }

/-- The handles taken by the tables before this one. -/
def handlesBefore (table : String) : Entries (List Value) → Nat
  | [] => 0
  | (key, rows) :: tables =>
    if key = table then 0 else rows.length + 1 + handlesBefore table tables

/-- A row as it is handed out. -/
def toRecord (handle : Nat) (table : String) : Value → Value
  | .object entries => .record handle table entries
  | row => row

/-- The rows of a table as they are handed out. -/
def records (table : String) : Nat → List Value → List Value
  | _, [] => []
  | handle, row :: rows => toRecord handle table row :: records table (handle + 1) rows

/-- All rows of a table. -/
def fetchAll (source : Source) (first : Nat) (table : String) : Option Value :=
  (source.tables.get? table).map fun rows =>
    let handle := first + handlesBefore table source.tables
    .collection handle (.ok (records table (handle + 1) rows))

/-- Whether an id is the one that this text identifies. -/
def isId (identifier : String) : Value → Bool
  | .integer n => toString n.toInt == identifier
  | .string s => s == identifier
  | _ => false

/-- The first row with this identifier, as it is handed out. -/
def find? (idField table identifier : String) :
    Nat → List Value → Except EvalError (Option Value)
  | _, [] => .ok none
  | handle, row :: rows =>
    match Accessor.getValue {} row idField with
    | .error e => .error e
    | .ok id =>
      if isId identifier id then .ok (some (toRecord handle table row))
      else find? idField table identifier (handle + 1) rows

/-- The row of a table with this identifier. -/
def fetchOne (source : Source) (first : Nat) (table identifier : String) :
    Except EvalError (Option Value) :=
  match source.tables.get? table with
  | none => .ok none
  | some rows =>
    find? source.idField table identifier (first + handlesBefore table source.tables + 1) rows

/-- What the source has for a path: one row if there is an identifier, else all. -/
def resolve (source : Source) (first : Nat) (path : String) (identifier : Option String) :
    Except EvalError Value :=
  match identifier with
  | some text => (source.fetchOne first path text).map (·.getD .null)
  | none => .ok ((source.fetchAll first path).getD .null)

/-- The source as the root of queries. -/
def toRoot (source : Source) (first : Nat) : Root :=
  .resolver fun path entity => source.resolve first path entity.identifier

end Source
end NestedQuery
