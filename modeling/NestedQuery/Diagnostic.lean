/-
# Diagnostics

What an evaluation reports on the way, apart from its result: a root that has
no properties, a modifier or a sort direction that is not known, and each
modifier that changes the order of a sequence. The first two are warnings.

Key definitions: `Level`, `DiagnosticKind`, `Diagnostic`.
-/
namespace NestedQuery

/-- How much a diagnostic matters. -/
inductive Level where
  | debug
  | warning
  deriving DecidableEq

/-- What a diagnostic is about. -/
inductive DiagnosticKind where
  /-- A root of this type has no properties, so the result is `null`. -/
  | unresolvedRoot (type : String)
  /-- A modifier of this keyword has no meaning. -/
  | unknownModifier (keyword : String) (payload : Option String)
  /-- A sort direction of this name has no meaning. -/
  | customSortDirection (property direction : String)
  /-- A modifier was run. -/
  | modifierApplied (aliasName modifier : String)
  deriving DecidableEq

/-- A report of an evaluation. -/
structure Diagnostic where
  level : Level
  kind : DiagnosticKind
  message : String
  deriving DecidableEq

namespace Diagnostic

/-- A root of this type met while this path was to be resolved. -/
def unresolvedRoot (type path : String) : Diagnostic :=
  ⟨.warning, .unresolvedRoot type,
    s!"cannot traverse a root of type {type} while resolving '{path}'; result is null"⟩

/-- A modifier without a meaning on the entity of this alias. -/
def unknownModifier (aliasName keyword : String) (payload : Option String) : Diagnostic :=
  let text := payload.getD ""
  ⟨.warning, .unknownModifier keyword payload,
    s!"unknown modifier '{keyword}' on '{aliasName}', payload: '{text}'; ignored"⟩

/-- A sort direction without a meaning. -/
def customSortDirection (property direction : String) : Diagnostic :=
  ⟨.debug, .customSortDirection property direction,
    s!"sort direction '{direction}' on '{property}' is not supported yet, sorting ascending"⟩

/-- A modifier run on the entity of this alias. -/
def modifierApplied (aliasName modifier : String) : Diagnostic :=
  ⟨.debug, .modifierApplied aliasName modifier, s!"applied {modifier} to '{aliasName}'"⟩

end Diagnostic
end NestedQuery
