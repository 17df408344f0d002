/-
# Queries that draw nothing

Only a shuffle draws random words. A query none of whose entities, at any
depth, is randomized does the same in every run and leaves the generator as
it was.

Key definition: `Query.DrawsNothing`.
Key theorems: `Evaluator.steady_select`, `Evaluator.steady_evaluate`,
`Evaluator.steady_apply`.
-/
import NestedQuery.Proofs.Grammar
import NestedQuery.Proofs.Runs
import NestedQuery.Proofs.Shape

namespace NestedQuery

/-- No entity is randomized, at any depth. -/
def Query.DrawsNothing (query : Query) : Prop :=
  ∀ entity ∈ Query.preorder query, .randomize ∉ entity.modifiers

instance (query : Query) : Decidable query.DrawsNothing :=
  inferInstanceAs (Decidable (∀ entity ∈ Query.preorder query, .randomize ∉ entity.modifiers))

theorem steady_runModifier (accessor : Accessor) (aliasName : String) {m : Modifier}
    (hm : m ≠ .randomize) (v : Value) : (runModifier accessor aliasName m v).Steady := by
  cases m with
  | randomize => exact (hm rfl).elim
  | sort terms =>
    refine (Eval.Steady.ofExcept _).bind fun items => ?_
    refine (Eval.Steady.reportAll _).bind fun _ => ?_
    refine (Eval.Steady.ofExcept _).bind fun sorted => ?_
    exact (Eval.Steady.report _).bind fun _ => .pure _
  | limit offset count => exact .ofExcept _
  | generic keyword payload => exact (Eval.Steady.report _).bind fun _ => .pure _

theorem steady_runModifiers (accessor : Accessor) (aliasName : String) {modifiers : List Modifier}
    (hm : .randomize ∉ modifiers) (v : Value) :
    (runModifiers accessor aliasName modifiers v).Steady := by
  induction modifiers generalizing v with
  | nil => exact .pure v
  | cons m modifiers ih =>
    obtain ⟨hfirst, hothers⟩ := not_or.1 (List.mem_cons.not.1 hm)
    exact (steady_runModifier accessor aliasName (Ne.symm hfirst) v).bind (ih hothers)

namespace Evaluator

variable (ev : Evaluator)

theorem steady_locate (root : Value) (entity : Entity) : (ev.locate root entity).Steady := by
  by_cases hs : root.isScalar
  · rw [locate_scalar ev hs]
    exact (Eval.Steady.report _).bind fun _ => .pure none
  · cases root with
    | null | boolean | integer | float | string | dateTime => exact (hs rfl).elim
    | _ => exact (Eval.Steady.ofExcept _).map some

theorem steady_project {subQuery : Value → Eval Selection} (hq : ∀ v, (subQuery v).Steady)
    (v : Value) : (ev.project subQuery v).Steady := by
  have hvalue : ∀ v, (Selection.toValue <$> subQuery v).Steady := fun v => (hq v).map _
  cases v with
  | array items => exact (Eval.Steady.forEach fun item _ => hvalue item).map Value.array
  | collection handle outcome =>
    exact (Eval.Steady.ofExcept outcome).bind fun items =>
      (Eval.Steady.forEach fun item _ => hvalue item).map Value.array
  | object entries =>
    unfold project
    cases ev.recursion with
    | direct => exact hvalue _
    | elementWise => exact (Eval.Steady.forEach fun e _ => (hq e.2).map _).map Value.object
  | _ => exact hvalue _

theorem steady_finish {entity : Entity} (hm : .randomize ∉ entity.modifiers) (v : Value) :
    (ev.finish entity v).Steady :=
  (Eval.Steady.ofExcept _).bind (steady_runModifiers ev.accessor entity.aliasName hm)

mutual

theorem steady_select : ∀ query : List Entity, Query.DrawsNothing query →
    ∀ root, (ev.select query root).Steady
  | [], _, root => by
    unfold select
    exact .pure _
  | entity :: query, hq, root => by
    obtain ⟨⟨hentity, hchildren⟩, hothers⟩ := Query.forall_preorder_cons.1 hq
    unfold select
    refine (steady_locate ev root entity).bind fun found => ?_
    cases found with
    | none => exact .pure _
    | some v =>
      refine (steady_evaluate entity hentity hchildren v).bind fun value => ?_
      exact (steady_select query hothers root).bind fun others => .pure _

theorem steady_evaluate : ∀ entity : Entity, .randomize ∉ entity.modifiers →
    (∀ children ∈ entity.children, Query.DrawsNothing children) →
    ∀ v, (ev.evaluate entity v).Steady
  | ⟨aliasName, path, identifier, children, modifiers⟩, hm, hc, v => by
    unfold evaluate
    refine (Eval.Steady.ofExcept _).bind fun w => ?_
    cases children with
    | none => exact steady_finish ev hm w
    | some query =>
      dsimp only
      split
      · exact steady_finish ev hm w
      · exact (steady_project ev (steady_select query (hc query rfl)) w).bind (steady_finish ev hm)

end

/-- Applying the query does the same whatever the state of the generator, and keeps that. -/
theorem steady_apply {query : Query} (hq : query.DrawsNothing) (root : Root) :
    (ev.apply query root).Steady := by
  cases root with
  | value v => exact steady_select ev query hq v
  | resolver resolve =>
    refine (Eval.Steady.forEach fun entity he => ?_).map some
    obtain ⟨hentity, hchildren⟩ := Query.forall_preorder_of_mem hq he
    refine (Eval.Steady.ofExcept _).bind fun v => ?_
    exact (steady_evaluate ev entity hentity hchildren v).bind fun value => .pure _

end Evaluator
end NestedQuery
