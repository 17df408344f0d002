/-
# Applying queries

A query is applied to a root, which is a value or a resolver that is asked
for each entity of the top level. Entities are evaluated in order, each one
in five steps: its value is found in the root, computed if it is deferred,
normalized, projected through the sub-query if there is one, and run through
the modifiers. Sub-queries are applied to each item of a sequence and, unless
objects are taken for records, to each value of an object.

The result has one value for each alias, in order. There is none if the root
is a scalar and the query is not empty; inside a value such a root gives
`null`.

Key definitions: `Root`, `ObjectRecursion`, `Evaluator`,
`Evaluator.locate`, `Evaluator.project`, `Evaluator.select`,
`Evaluator.evaluate`, `Evaluator.apply`.
-/
import NestedQuery.Evaluator.Modifier

namespace NestedQuery

/-- What a query is applied to. -/
inductive Root where
  | value (v : Value)
  /-- Asked for the value of a path, for this entity. -/
  | resolver (resolve : String → Entity → Except EvalError Value)

/-- How a sub-query takes an object. -/
inductive ObjectRecursion where
  /-- As a collection with keys: it is applied to each value. -/
  | elementWise
  /-- As a record: it is applied to the object itself. -/
  | direct
  deriving DecidableEq

/-- One step of normalizing values. -/
abbrev Normalizer := Value → Except EvalError Value

namespace Normalizer

/-- Collections become arrays. -/
def realizeCollections : Normalizer := Value.realize

/-- Points in time become text in the form of ISO 8601. -/
def isoDateTimes : Normalizer
  | .dateTime t => .ok (.string t.iso)
  | v => .ok v

/-- The steps that an evaluator has unless it is given others. -/
def default : List Normalizer := [realizeCollections, isoDateTimes]

end Normalizer

/-- How queries are applied. -/
structure Evaluator where
  accessor : Accessor := {}
  normalizers : List Normalizer := Normalizer.default
  recursion : ObjectRecursion := .elementWise

/-- The values by alias, or nothing for a root without properties. -/
abbrev Selection := Option (Entries Value)

/-- The value that a selection stands for inside another value. -/
def Selection.toValue : Selection → Value
  | some entries => .object entries
  | none => .null

/-- Runs normalizers from left to right. -/
def normalize : List Normalizer → Value → Except EvalError Value
  | [], v => .ok v
  | step :: steps, v =>
    match step v with
    | .error e => .error e
    | .ok w => normalize steps w

namespace Evaluator

/-- The value that an entity names in a root; a root without properties is reported. -/
def locate (ev : Evaluator) (root : Value) (entity : Entity) : Eval (Option Value) :=
  match root with
  | .object _ | .array _ => some <$> Eval.ofExcept (ev.accessor.getKey root entity.path)
  | .collection _ outcome =>
    some <$> Eval.ofExcept (outcome.bind fun items =>
      ev.accessor.getKey (.array items) entity.path)
  | .deferred _ compute => some <$> Eval.ofExcept (compute entity ev.accessor)
  | .record _ _ _ => some <$> Eval.ofExcept (ev.accessor.getValue root entity.path)
  | scalar => do
    Eval.report (.unresolvedRoot scalar.typeName entity.path)
    pure none

/-- A deferred value computed for the entity; others stay as they are. -/
def materialize (ev : Evaluator) (entity : Entity) : Value → Except EvalError Value
  | .deferred _ compute => compute entity ev.accessor
  | v => .ok v

/-- The entity's value before its sub-query. -/
def prepare (ev : Evaluator) (entity : Entity) (v : Value) : Except EvalError Value :=
  (ev.materialize entity v).bind (normalize ev.normalizers)

/-- A sub-query applied to a value, or to what it holds. -/
def project (ev : Evaluator) (subQuery : Value → Eval Selection) (v : Value) : Eval Value :=
  match v with
  | .array items =>
    Value.array <$> Eval.forEach (fun item => Selection.toValue <$> subQuery item) items
  | .collection _ outcome => do
    let items ← Eval.ofExcept outcome
    Value.array <$> Eval.forEach (fun item => Selection.toValue <$> subQuery item) items
  | .object entries =>
    match ev.recursion with
    | .elementWise =>
      Value.object <$> Eval.forEach
        (fun entry => (fun s => (entry.1, Selection.toValue s)) <$> subQuery entry.2) entries
    | .direct => Selection.toValue <$> subQuery (.object entries)
  | single => Selection.toValue <$> subQuery single

/-- The entity's value behind its sub-query. -/
def finish (ev : Evaluator) (entity : Entity) (v : Value) : Eval Value := do
  let v ← Eval.ofExcept v.realize
  runModifiers ev.accessor entity.aliasName entity.modifiers v

mutual

/-- The values that the entities of a query name in a root. -/
def select (ev : Evaluator) : List Entity → Value → Eval Selection
  | [], _ => pure (some [])
  | entity :: query, root => do
    match ← ev.locate root entity with
    | none => pure none
    | some v =>
      let value ← evaluate ev entity v
      let others ← select ev query root
      pure (others.map ((entity.aliasName, value) :: ·))

/-- What an entity makes of the value found for it. -/
def evaluate (ev : Evaluator) : Entity → Value → Eval Value
  | ⟨aliasName, path, identifier, children, modifiers⟩, v => do
    let entity : Entity := ⟨aliasName, path, identifier, children, modifiers⟩
    let v ← Eval.ofExcept (ev.prepare entity v)
    let v ← match children with
      | none => pure v
      | some query => if query.isEmpty then pure v else ev.project (select ev query) v
    ev.finish entity v

end

/-- A query applied to a root. -/
def apply (ev : Evaluator) (query : Query) : Root → Eval Selection
  | .value v => ev.select query v
  | .resolver resolve =>
    some <$> Eval.forEach (fun entity => do
      let v ← Eval.ofExcept (resolve entity.path entity)
      let value ← ev.evaluate entity v
      pure (entity.aliasName, value)) query

end Evaluator
end NestedQuery
