/-
# Sessions

An evaluator in use: it keeps the state of its generator from one query to
the next, and all diagnostics are collected until they are cleared.

Key definitions: `Session`, `Session.apply`, `Session.emit`,
`Session.warnings`, `Session.clear`.
-/
import NestedQuery.Evaluator

namespace NestedQuery

/-- An evaluator with its generator and the diagnostics collected so far. -/
structure Session where
  evaluator : Evaluator := {}
  generator : Generator := .ofSeed 0
  diagnostics : List Diagnostic := []

namespace Session

/-- The session with a freshly seeded generator. -/
def reseed (session : Session) (seed : Nat) : Session :=
  { session with generator := .ofSeed seed }

/-- Applies a query, collecting what is reported. -/
def apply (session : Session) (query : Query) (root : Root) :
    Except EvalError Selection × Session :=
  let outcome := session.evaluator.apply query root session.generator
  (outcome.result,
    { session with
      generator := outcome.generator
      diagnostics := session.diagnostics ++ outcome.reports })

/-- Collects one more diagnostic. -/
def emit (session : Session) (diagnostic : Diagnostic) : Session :=
  { session with diagnostics := session.diagnostics ++ [diagnostic] }

/-- The warnings among the diagnostics. -/
def warnings (session : Session) : List Diagnostic :=
  session.diagnostics.filter fun d => d.level = .warning

/-- Forgets all diagnostics. -/
def clear (session : Session) : Session := { session with diagnostics := [] }

end Session

end NestedQuery
