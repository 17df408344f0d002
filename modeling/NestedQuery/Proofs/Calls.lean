/-
# Calls on one session

The calls on a session share its generator, and a call that draws on it
changes what the next ones draw. A query that draws nothing neither looks at
the generator nor moves it. So what a call gives depends on the calls before
it only through those that draw: the others can be left out, and more of them
put in, without a change; and a call that draws nothing itself gives what it
gives on a fresh session.

Key definitions: `Call`, `Session.after`, `Session.results`,
`Session.Alike`.
Key theorems: `Session.Alike.apply`, `Session.alike_after_filter`,
`calls_without_draws`.
-/
import NestedQuery.Proofs.Steady
import NestedQuery.Session

namespace NestedQuery

/-- A query and the root that it is applied to. -/
structure Call where
  query : Query
  root : Root

/-- Whether an entity of the query is randomized. -/
def Call.draws (call : Call) : Bool := ¬ call.query.DrawsNothing

namespace Session

/-- The session behind a sequence of calls. -/
def after (session : Session) : List Call → Session
  | [] => session
  | call :: calls => (session.apply call.query call.root).2.after calls

/-- What a sequence of calls gives, call by call. -/
def results (session : Session) : List Call → List (Except EvalError Selection)
  | [] => []
  | call :: calls =>
    (session.apply call.query call.root).1 ::
      (session.apply call.query call.root).2.results calls

/-- A call gives what it gives on the session behind those before it. -/
theorem getElem?_results (session : Session) (before after : List Call) (call : Call) :
    (session.results (before ++ call :: after))[before.length]? =
      some ((session.after before).apply call.query call.root).1 := by
  induction before generalizing session with
  | nil => rfl
  | cons first before ih => exact ih _

/-! ### Sessions that apply queries alike -/

/-- The same evaluator, with its generator in the same state; other diagnostics may have been
collected. -/
structure Alike (s s' : Session) : Prop where
  evaluator : s.evaluator = s'.evaluator
  generator : s.generator = s'.generator

variable {s s' : Session}

theorem Alike.trans {s'' : Session} (h : s.Alike s') (h' : s'.Alike s'') : s.Alike s'' :=
  ⟨h.evaluator.trans h'.evaluator, h.generator.trans h'.generator⟩

theorem Alike.symm (h : s.Alike s') : s'.Alike s := ⟨h.evaluator.symm, h.generator.symm⟩

/-- Such sessions give the same and stay alike. -/
theorem Alike.apply (h : s.Alike s') (query : Query) (root : Root) :
    (s.apply query root).1 = (s'.apply query root).1 ∧
      (s.apply query root).2.Alike (s'.apply query root).2 := by
  have houtcome : s.evaluator.apply query root s.generator =
      s'.evaluator.apply query root s'.generator := by
    rw [h.evaluator, h.generator]
  refine ⟨congrArg Outcome.result houtcome, h.evaluator, ?_⟩
  exact congrArg Outcome.generator houtcome

/-- A query that draws nothing leaves the session as it was, up to what it reports. -/
theorem alike_apply {query : Query} (hq : query.DrawsNothing) (root : Root) :
    (s.apply query root).2.Alike s := by
  obtain ⟨result, reports, hrun⟩ := s.evaluator.steady_apply hq root
  refine ⟨rfl, ?_⟩
  show (s.evaluator.apply query root s.generator).generator = s.generator
  rw [hrun]

/-- It gives the same on every session with this evaluator. -/
theorem result_apply {query : Query} (hq : query.DrawsNothing) (root : Root)
    (he : s.evaluator = s'.evaluator) : (s.apply query root).1 = (s'.apply query root).1 := by
  show (s.evaluator.apply query root s.generator).result =
    (s'.evaluator.apply query root s'.generator).result
  rw [he]
  exact (s'.evaluator.steady_apply hq root).result_eq _ _

theorem evaluator_after (session : Session) (calls : List Call) :
    (session.after calls).evaluator = session.evaluator := by
  induction calls generalizing session with
  | nil => rfl
  | cons call calls ih => exact ih _

/-- Calls that draw nothing can be left out. -/
theorem alike_after_filter (calls : List Call) (h : s.Alike s') :
    (s.after calls).Alike (s'.after (calls.filter Call.draws)) := by
  induction calls generalizing s s' with
  | nil => exact h
  | cons call calls ih =>
    by_cases hq : call.query.DrawsNothing
    · have hdraws : call.draws = false := by simp [Call.draws, hq]
      rw [List.filter_cons_of_neg (by simp [hdraws])]
      exact ih ((alike_apply hq call.root).trans h)
    · have hdraws : call.draws = true := by simp [Call.draws, hq]
      rw [List.filter_cons_of_pos hdraws]
      exact ih (h.apply call.query call.root).2

end Session

/-- **Queries that draw nothing do not interfere.** They give and report the same whatever the
state of the generator, and leave it as it was. So a call gives the same at two places in two
sequences of calls on a session if the same calls that draw stand before it, in the same order;
and a call that draws nothing gives what it gives on any session with this evaluator, such as a
fresh one of any seed. -/
theorem calls_without_draws (session : Session) :
    (∀ (query : Query) (root : Root), query.DrawsNothing → ∃ result reports, ∀ g,
      session.evaluator.apply query root g = ⟨result, reports, g⟩) ∧
    ∀ (before before' after after' : List Call) (call : Call),
      before.filter Call.draws = before'.filter Call.draws →
      ∃ result,
        (session.results (before ++ call :: after))[before.length]? = some result ∧
        (session.results (before' ++ call :: after'))[before'.length]? = some result ∧
        (call.query.DrawsNothing → ∀ fresh : Session, fresh.evaluator = session.evaluator →
          (fresh.apply call.query call.root).1 = result) := by
  refine ⟨fun query root hq => session.evaluator.steady_apply hq root,
    fun before before' after after' call hsame => ?_⟩
  have hself : session.Alike session := ⟨rfl, rfl⟩
  have hbefore := Session.alike_after_filter before hself
  have hbefore' := Session.alike_after_filter before' hself
  rw [hsame] at hbefore
  have halike : (session.after before).Alike (session.after before') :=
    hbefore.trans hbefore'.symm
  refine ⟨_, Session.getElem?_results session before after call, ?_, fun hq fresh he => ?_⟩
  · rw [Session.getElem?_results, (halike.apply call.query call.root).1]
  · exact Session.result_apply hq call.root (he.trans (Session.evaluator_after session before).symm)

end NestedQuery
