/-
# Running modifiers

Sorting and shuffling take the items of an array, or the values of an object
in order, and give an array; slicing keeps an object an object. Anything else
they refuse. Sorting reads the keys of all items first, item by item, and is
stable: the first term whose keys differ decides, and a descending term
reverses the order of its keys, not that of items with equal keys. A modifier
without a meaning leaves the value as it is.

Key definitions: `Value.sequence`, `orderKeys`, `sortItems`, `slice`,
`runModifier`.
-/
import NestedQuery.Eval
import NestedQuery.Sorting.Runs
import NestedQuery.Value.Access
import NestedQuery.Value.Order

namespace NestedQuery

/-- The items a modifier works on; keys are dropped. -/
def Value.sequence (modifier : String) : Value → Except EvalError (List Value)
  | .array items => .ok items
  | .object entries => .ok (entries.map Prod.snd)
  | v => .error (.wrongType modifier v.typeName)

/-! ### Sorting -/

/-- The order of two items by their keys, one for each term. -/
def orderKeys : List SortTerm → List Value → List Value → Ordering
  | term :: terms, a :: as, b :: bs =>
    match a.order b with
    | .eq => orderKeys terms as bs
    | o => if term.direction.isAscending then o else o.swap
  | _, _, _ => .eq

/-- The keys of an item, one for each term. -/
def sortKeys (accessor : Accessor) (item : Value) : List SortTerm → Except EvalError (List Value)
  | [] => .ok []
  | term :: terms =>
    match accessor.getValue item term.property with
    | .error e => .error e
    | .ok key => (sortKeys accessor item terms).map (key :: ·)

/-- The items with their keys. -/
def keyed (accessor : Accessor) (terms : List SortTerm) :
    List Value → Except EvalError (List (List Value × Value))
  | [] => .ok []
  | item :: items =>
    match sortKeys accessor item terms with
    | .error e => .error e
    | .ok keys => (keyed accessor terms items).map ((keys, item) :: ·)

/-- An arrangement, if the order does not contradict itself. -/
def consistent {α : Type} : Option α → Except EvalError α
  | some arrangement => .ok arrangement
  | none => .error .contradictoryOrder

/-- The items in the order of their keys. -/
def sortItems (accessor : Accessor) (terms : List SortTerm) (items : List Value) :
    Except EvalError (List Value) :=
  (keyed accessor terms items).bind fun pairs =>
    (consistent (Sorting.arrange (fun a b => orderKeys terms a.1 b.1 == .lt) pairs)).map
      (List.map Prod.snd)

/-- The reports on the directions that have no meaning. -/
def customDirections : List SortTerm → List Diagnostic
  | [] => []
  | ⟨property, .custom word⟩ :: terms =>
    Diagnostic.customSortDirection property word :: customDirections terms
  | _ :: terms => customDirections terms

/-! ### Slicing -/

/-- The items from `offset` on, `count` of them or all. -/
def slice {α : Type} (offset : Nat) (count : Option Nat) (items : List α) : List α :=
  match count with
  | some n => (items.drop offset).take n
  | none => items.drop offset

@[simp] theorem slice_map {α β : Type} (f : α → β) (offset : Nat) (count : Option Nat)
    (items : List α) : slice offset count (items.map f) = (slice offset count items).map f := by
  cases count <;> simp [slice, List.map_drop, List.map_take]

/-- The slice of a sequence or of an object. -/
def Value.slice (offset : Nat) (count : Option Nat) : Value → Except EvalError Value
  | .array items => .ok (.array (NestedQuery.slice offset count items))
  | .object entries => .ok (.object (NestedQuery.slice offset count entries))
  | v => .error (.wrongType "limit" v.typeName)

/-! ### Modifiers -/

/-- Runs a modifier of the entity of this alias. -/
def runModifier (accessor : Accessor) (aliasName : String) (modifier : Modifier) (v : Value) :
    Eval Value :=
  match modifier with
  | .randomize => do
    let items ← Eval.ofExcept (v.sequence "randomize")
    let shuffled ← Eval.shuffle items
    Eval.report (.modifierApplied aliasName "randomize")
    pure (.array shuffled)
  | .sort terms => do
    let items ← Eval.ofExcept (v.sequence "sort")
    Eval.reportAll (customDirections terms)
    let sorted ← Eval.ofExcept (sortItems accessor terms items)
    Eval.report (.modifierApplied aliasName "sort")
    pure (.array sorted)
  | .limit offset count => Eval.ofExcept (v.slice offset count)
  | .generic keyword payload => do
    Eval.report (.unknownModifier aliasName keyword payload)
    pure v

/-- Runs modifiers from left to right. -/
def runModifiers (accessor : Accessor) (aliasName : String) : List Modifier → Value → Eval Value
  | [], v => pure v
  | modifier :: modifiers, v => do
    let v ← runModifier accessor aliasName modifier v
    runModifiers accessor aliasName modifiers v

end NestedQuery
