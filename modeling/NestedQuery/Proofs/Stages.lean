/-
# The stages of an entity

What an entity makes of a root can be cut at any of its modifiers: the source
gives a value, which is normalized, taken through the sub-query and run
through the modifiers in front of the cut (`Evaluator.upTo`), and the
modifiers behind the cut run on what comes out of that
(`Evaluator.answer_eq_upTo`). So two entities that differ behind the cut only
have the same value there, unless a source looks at the modifiers
(`Evaluator.upTo_congr`), and if nothing in front of the cut is random that
value is the same in every run.

Key definitions: `Evaluator.given`, `Evaluator.upTo`.
Key theorems: `runModifiers_append`, `Evaluator.answer_eq_upTo`,
`Evaluator.result_answer`, `Evaluator.upTo_congr`.
-/
import NestedQuery.Proofs.Siblings

namespace NestedQuery

/-- Modifiers run one after the other. -/
theorem runModifiers_append (accessor : Accessor) (aliasName : String)
    (front rest : List Modifier) (v : Value) :
    runModifiers accessor aliasName (front ++ rest) v =
      runModifiers accessor aliasName front v >>= runModifiers accessor aliasName rest := by
  induction front generalizing v with
  | nil => rfl
  | cons modifier front ih =>
    rw [List.cons_append, runModifiers, runModifiers, bind_assoc]
    simp only [ih]

theorem Eval.ofExcept_bind {α β : Type} (x : Except EvalError α) (f : α → Except EvalError β) :
    ofExcept (x.bind f) = ofExcept x >>= fun a => ofExcept (f a) := by
  funext g
  cases x <;> rfl

/-- A key of an object is found before it is taken for a path. -/
theorem Accessor.getKey_of_get? (accessor : Accessor) {entries : Entries Value} {path : String}
    {v : Value} (h : entries.get? path = some v) :
    accessor.getKey (.object entries) path = .ok v := by
  have hread : (Value.object entries).read (.field path) = .ok (some v) := congrArg Except.ok h
  rw [getKey, hread]

namespace Evaluator

variable (ev : Evaluator) {root : Root} {entity other : Entity} {front rest : List Modifier}

/-- The value that the sources have for an entity; a root without properties has none. -/
def given : Root → Entity → Eval (Option Value)
  | .value v, entity => do
    match ← ev.locate v entity with
    | none => pure none
    | some found => some <$> Eval.ofExcept (ev.materialize entity found)
  | .resolver resolve, entity => do
    let found ← Eval.ofExcept (resolve entity.path entity)
    some <$> Eval.ofExcept (ev.materialize entity found)

/-- The value of an entity behind the modifiers in front. -/
def upTo (root : Root) (entity : Entity) (front : List Modifier) : Eval (Option Value) := do
  match ← ev.given root entity with
  | none => pure none
  | some v =>
    let w ← Eval.ofExcept (normalize ev.normalizers v)
    let w ← ev.descend entity w
    let w ← Eval.ofExcept w.realize
    some <$> runModifiers ev.accessor entity.aliasName front w

/-- The other modifiers run on the value behind those in front. -/
theorem answer_eq_upTo (h : entity.modifiers = front ++ rest) :
    ev.answer root entity = ev.upTo root entity front >>= fun value =>
      match value with
      | none => pure .null
      | some w => runModifiers ev.accessor entity.aliasName rest w := by
  have hevaluate : ∀ found, ev.evaluate entity found = (do
      let v ← Eval.ofExcept (ev.materialize entity found)
      let w ← Eval.ofExcept (normalize ev.normalizers v)
      let w ← ev.descend entity w
      let w ← Eval.ofExcept w.realize
      let w ← runModifiers ev.accessor entity.aliasName front w
      runModifiers ev.accessor entity.aliasName rest w) := by
    intro found
    rw [evaluate_eq, prepare, Eval.ofExcept_bind, bind_assoc]
    unfold finish
    simp only [h, runModifiers_append]
  unfold answer upTo given
  cases root with
  | resolver resolve =>
    simp only [hevaluate, map_eq_pure_bind, bind_assoc, pure_bind]
  | value v =>
    simp only [bind_assoc]
    congr 1
    funext found
    cases found with
    | none => rfl
    | some found => simp only [hevaluate, map_eq_pure_bind, bind_assoc, pure_bind]

theorem steady_given (root : Root) (entity : Entity) : (ev.given root entity).Steady := by
  cases root with
  | value v =>
    refine (steady_locate ev v entity).bind fun found => ?_
    cases found with
    | none => exact .pure none
    | some found => exact (Eval.Steady.ofExcept _).map some
  | resolver resolve =>
    exact (Eval.Steady.ofExcept _).bind fun found => (Eval.Steady.ofExcept _).map some

theorem steady_descend (hc : ∀ children ∈ entity.children, Query.DrawsNothing children)
    (v : Value) : (ev.descend entity v).Steady := by
  unfold descend
  cases h : entity.children with
  | none => exact .pure v
  | some query =>
    dsimp only
    split
    · exact .pure v
    · exact steady_project ev (steady_select ev query (hc query h)) v

/-- Without a shuffle in front of the cut, and in the sub-query, all runs have the same value
there. -/
theorem steady_upTo (hc : ∀ children ∈ entity.children, Query.DrawsNothing children)
    (hm : .randomize ∉ front) (root : Root) : (ev.upTo root entity front).Steady := by
  refine (ev.steady_given root entity).bind fun value => ?_
  cases value with
  | none => exact .pure none
  | some v =>
    refine (Eval.Steady.ofExcept _).bind fun w => (ev.steady_descend hc w).bind fun w => ?_
    exact (Eval.Steady.ofExcept _).bind fun w => (steady_runModifiers _ _ hm w).map some

variable {ev}

/-- In every run the entity gives what its other modifiers make of the value that is in front of
them in one. -/
theorem result_answer (hc : ∀ children ∈ entity.children, Query.DrawsNothing children)
    (hm : .randomize ∉ front) (h : entity.modifiers = front ++ rest) {g : Generator} {v : Value}
    (hv : (ev.upTo root entity front g).result = .ok (some v)) (g' : Generator) :
    (ev.answer root entity g').result =
      (runModifiers ev.accessor entity.aliasName rest v g').result := by
  have hsteady := ev.steady_upTo hc hm root
  rw [hsteady.result_eq g g'] at hv
  rw [ev.answer_eq_upTo h, hsteady.result_bind, hv]
  rfl

/-- Entities that differ in their modifiers only have the same value behind those in front, if the
sources have the same for both. -/
theorem upTo_congr (hgiven : ev.given root entity = ev.given root other)
    (haliasName : entity.aliasName = other.aliasName) (hchildren : entity.children = other.children)
    (front : List Modifier) : ev.upTo root entity front = ev.upTo root other front := by
  unfold upTo descend
  rw [hgiven, haliasName, hchildren]

/-- An entity goes down into what its path finds in an object, once that is prepared. -/
theorem answer_object {entries : Entries Value} {v w : Value}
    (hget : ev.accessor.getKey (.object entries) entity.path = .ok v)
    (hprepare : ev.prepare entity v = .ok w) :
    ev.answer (.value (.object entries)) entity = ev.descend entity w >>= ev.finish entity := by
  have hlocate : ev.locate (.object entries) entity = pure (some v) := by
    show some <$> Eval.ofExcept (ev.accessor.getKey (.object entries) entity.path) = _
    rw [hget]
    rfl
  rw [answer, hlocate, pure_bind]
  exact ev.evaluate_of_prepare hprepare

/-- An entity without a sub-query runs its modifiers on that. -/
theorem apply_leaf {entries : Entries Value} {v w : Value}
    (hget : ev.accessor.getKey (.object entries) entity.path = .ok v)
    (hchildren : entity.children = none) (hprepare : ev.prepare entity v = .ok w)
    (hw : w.realize = .ok w) :
    ev.apply [entity] (.value (.object entries)) =
      (fun value => some [(entity.aliasName, value)]) <$>
        runModifiers ev.accessor entity.aliasName entity.modifiers w := by
  have hdescend : ev.descend entity w = pure w := by rw [descend, hchildren]
  have hfinish : ev.finish entity w =
      runModifiers ev.accessor entity.aliasName entity.modifiers w := by
    rw [finish, hw]
    rfl
  rw [apply_singleton (Root.hasProperties_object entries), answer_object hget hprepare, hdescend,
    pure_bind, hfinish]

/-- The value of an entity behind all of its modifiers is what it makes of the root. -/
theorem upTo_modifiers_eq_ok_iff {g : Generator} {v : Value} (hv : v ≠ .null) :
    (ev.upTo root entity entity.modifiers g).result = .ok (some v) ↔
      (ev.answer root entity g).result = .ok v := by
  have hanswer : ev.answer root entity =
      (fun value => value.getD .null) <$> ev.upTo root entity entity.modifiers := by
    rw [ev.answer_eq_upTo (List.append_nil _).symm, map_eq_pure_bind]
    congr 1
    funext value
    cases value <;> rfl
  rw [hanswer, Eval.map_result, map_eq_ok_iff]
  constructor
  · exact fun h => ⟨some v, h, rfl⟩
  · rintro ⟨value, hvalue, rfl⟩
    cases value with
    | none => exact absurd rfl hv
    | some w => exact hvalue

end Evaluator
end NestedQuery
