/-
# Why an evaluation fails

An evaluation stops at the first failure: a modifier that needs a sequence
meets something else, a property path is malformed, a strict reader finds no
such property, or a source of data fails. Sorting can also find that the order
of its keys contradicts itself. Nobody answers for that: the whole program is
abandoned then.

Key definitions: `EvalError`, `EvalError.message`.
-/
namespace NestedQuery

/-- The cause of a failed evaluation. -/
inductive EvalError where
  /-- This modifier was run on a value of this type. -/
  | wrongType (modifier found : String)
  | invalidPath (path : String)
  /-- Only strict readers fail so. -/
  | noSuchProperty (path : String)
  /-- A resolver, a deferred value or a collection failed. -/
  | dataSource (source message : String)
  /-- Sorting finds items of which it cannot say which comes first; the program is abandoned. -/
  | contradictoryOrder
  deriving DecidableEq

/-- The wording of an evaluation error. -/
def EvalError.message : EvalError → String
  | wrongType modifier found => s!"Type error: {modifier} requires an array, got {found}"
  | invalidPath path => s!"Invalid property path '{path}'"
  | noSuchProperty path => s!"No such property '{path}'"
  | dataSource source message => s!"Data source '{source}' failed: {message}"
  | contradictoryOrder =>
    "user-provided comparison function does not correctly implement a total order"

end NestedQuery
