/-
# Siblings

The entities of a query do not influence each other. On a root that has
properties each of them makes of the root what it makes of it alone, as long
as none of them draws random words; a query fails as the first of its
entities does that fails alone. So entities can be left out and moved, and
those that remain keep their values.

The reason is that applying a query is a loop over its entities (the next
entity starts from the same root), and a loop whose body leaves the generator
as it was gives for each item what the body gives for it alone.

Key definitions: `Root.HasProperties`, `Evaluator.answer`,
`Evaluator.Answers`.
Key theorems: `Evaluator.apply_eq_forEach`, `Evaluator.apply_eq_ok_iff`,
`apply_subperm`, `apply_eq_error_iff_alone`, `apply_siblings`.
-/
import Mathlib.Data.List.Perm.Subperm
import NestedQuery.Proofs.Steady

namespace NestedQuery

/-- A resolver, or a value that is no scalar. -/
def Root.HasProperties (root : Root) : Prop := ∀ v, root = .value v → v.isScalar = false

theorem Root.hasProperties_object (entries : Entries Value) :
    Root.HasProperties (.value (.object entries)) := by
  rintro _ ⟨rfl⟩
  rfl

namespace Evaluator

variable {ev : Evaluator} {root : Root}

/-! ### One entity -/

/-- What an entity makes of a root. -/
def answer (ev : Evaluator) : Root → Entity → Eval Value
  | .value v, entity => do
    match ← ev.locate v entity with
    | none => pure .null
    | some found => ev.evaluate entity found
  | .resolver resolve, entity => do
    let found ← Eval.ofExcept (resolve entity.path entity)
    ev.evaluate entity found

theorem exists_locate (ev : Evaluator) {v : Value} (h : v.isScalar = false) (entity : Entity) :
    ∃ found, ev.locate v entity = some <$> Eval.ofExcept found := by
  cases v with
  | null | boolean | integer | float | string | dateTime => cases h
  | _ => exact ⟨_, rfl⟩

theorem steady_answer {query : Query} (hq : query.DrawsNothing) (root : Root) {entity : Entity}
    (he : entity ∈ query) : (ev.answer root entity).Steady := by
  obtain ⟨hm, hc⟩ := Query.forall_preorder_of_mem hq he
  cases root with
  | value v =>
    refine (steady_locate ev v entity).bind fun found => ?_
    cases found with
    | none => exact .pure _
    | some w => exact steady_evaluate ev entity hm hc w
  | resolver resolve =>
    exact (Eval.Steady.ofExcept _).bind fun w => steady_evaluate ev entity hm hc w

/-- Applying a query is a loop over its entities, each of which starts from the root. -/
theorem apply_eq_forEach (hr : root.HasProperties) (query : Query) :
    ev.apply query root =
      some <$> Eval.forEach (fun entity => (entity.aliasName, ·) <$> ev.answer root entity)
        query := by
  cases root with
  | resolver resolve => simp only [apply, answer, map_eq_pure_bind, bind_assoc]
  | value v =>
    have hv : v.isScalar = false := hr v rfl
    show ev.select query v = _
    induction query with
    | nil =>
      unfold select
      rfl
    | cons entity query ih =>
      obtain ⟨found, hfound⟩ := exists_locate ev hv entity
      unfold select
      simp only [Eval.forEach, answer, hfound, ih, map_eq_pure_bind, bind_assoc, pure_bind,
        Option.map_some]

/-- A query of one entity gives what that makes of the root. -/
theorem apply_singleton (hr : root.HasProperties) (entity : Entity) :
    ev.apply [entity] root =
      (fun value => some [(entity.aliasName, value)]) <$> ev.answer root entity := by
  rw [apply_eq_forEach hr]
  simp only [Eval.forEach, map_eq_pure_bind, bind_assoc, pure_bind]

/-! ### All entities -/

/-- The entry has the alias of the entity, and what that makes of the root when it runs alone. -/
def Answers (ev : Evaluator) (root : Root) (g : Generator) (entity : Entity)
    (entry : String × Value) : Prop :=
  entry.1 = entity.aliasName ∧ (ev.answer root entity g).result = .ok entry.2

theorem answers_iff {g : Generator} {entity : Entity} {entry : String × Value} :
    (((entity.aliasName, ·) <$> ev.answer root entity) g).result = .ok entry ↔
      ev.Answers root g entity entry := by
  obtain ⟨key, value⟩ := entry
  rw [Eval.map_result, map_eq_ok_iff, Answers]
  simp only [Prod.mk.injEq]
  constructor
  · rintro ⟨w, hw, rfl, rfl⟩
    exact ⟨rfl, hw⟩
  · rintro ⟨rfl, hw⟩
    exact ⟨value, hw, rfl, rfl⟩

/-- A query gives what its entities give alone. -/
theorem apply_eq_ok_iff {query : Query} (hq : query.DrawsNothing) (hr : root.HasProperties)
    (g : Generator) {entries : Entries Value} :
    (ev.apply query root g).result = .ok (some entries) ↔
      List.Forall₂ (ev.Answers root g) query entries := by
  have hsteady : ∀ entity ∈ query, ((entity.aliasName, ·) <$> ev.answer root entity).Steady :=
    fun entity he => (steady_answer hq root he).map _
  rw [apply_eq_forEach hr, Eval.map_result, map_eq_ok_iff]
  simp only [Option.some.injEq, exists_eq_right, Eval.Steady.forEach_eq_ok_iff hsteady,
    answers_iff]

/-- It fails as the first of them does that fails alone. -/
theorem apply_eq_error_iff {query : Query} (hq : query.DrawsNothing) (hr : root.HasProperties)
    (g : Generator) {e : EvalError} :
    (ev.apply query root g).result = .error e ↔
      ∃ before entity after, query = before ++ entity :: after ∧
        (∀ other ∈ before, ∃ entry, ev.Answers root g other entry) ∧
        (ev.answer root entity g).result = .error e := by
  have hsteady : ∀ entity ∈ query, ((entity.aliasName, ·) <$> ev.answer root entity).Steady :=
    fun entity he => (steady_answer hq root he).map _
  rw [apply_eq_forEach hr, Eval.map_result, map_eq_error_iff,
    Eval.Steady.forEach_eq_error_iff hsteady]
  simp only [answers_iff]
  simp only [Eval.map_result, map_eq_error_iff]

theorem answers_congr {query : Query} (hq : query.DrawsNothing) (root : Root) {entity : Entity}
    (he : entity ∈ query) (g g' : Generator) {entry : String × Value} :
    ev.Answers root g entity entry ↔ ev.Answers root g' entity entry := by
  unfold Answers
  rw [(steady_answer hq root he).result_eq g g']

theorem keys_of_answers {query : Query} {g : Generator} {entries : Entries Value}
    (h : List.Forall₂ (ev.Answers root g) query entries) : entries.keys = query.aliases := by
  induction h with
  | nil => rfl
  | cons hentry _ ih =>
    have hkeys := congrArg₂ List.cons hentry.1 ih
    exact hkeys

/-- The value under an alias is the one that its entity gives. -/
theorem get?_of_answers {query : Query} {g : Generator} {entries : Entries Value}
    (h : List.Forall₂ (ev.Answers root g) query entries) (hn : query.aliases.Nodup)
    {entity : Entity} (he : entity ∈ query) :
    ∃ value, entries.get? entity.aliasName = some value ∧
      ev.Answers root g entity (entity.aliasName, value) := by
  induction h with
  | nil => cases he
  | @cons first entry query entries hentry _ ih =>
    obtain ⟨key, value⟩ := entry
    obtain ⟨hkey, hvalue⟩ := hentry
    have hnodup : first.aliasName ∉ Query.aliases query ∧ (Query.aliases query).Nodup :=
      List.nodup_cons.1 hn
    rcases List.mem_cons.1 he with rfl | he
    · exact ⟨value, if_pos hkey, rfl, hvalue⟩
    · have hne : key ≠ entity.aliasName := by
        intro heq
        apply hnodup.1
        rw [← hkey, heq]
        exact List.mem_map_of_mem he
      obtain ⟨other, hother, hanswers⟩ := ih hnodup.2 he
      exact ⟨other, (if_neg hne).trans hother, hanswers⟩

end Evaluator

theorem exists_forall₂ {α β : Type} {R : α → β → Prop} {xs : List α} (h : ∀ x ∈ xs, ∃ y, R x y) :
    ∃ ys, List.Forall₂ R xs ys := by
  induction xs with
  | nil => exact ⟨[], .nil⟩
  | cons x xs ih =>
    obtain ⟨⟨y, hy⟩, hxs⟩ := List.forall_mem_cons.1 h
    obtain ⟨ys, hys⟩ := ih hxs
    exact ⟨y :: ys, .cons hy hys⟩

theorem nodup_aliases_of_subperm {query query' : Query} (h : query'.Subperm query)
    (hn : query.aliases.Nodup) : query'.aliases.Nodup := by
  obtain ⟨kept, hperm, hsub⟩ := h
  have hkept : (Query.aliases kept).Nodup := hn.sublist (hsub.map Entity.aliasName)
  exact (hperm.map Entity.aliasName).nodup_iff.1 hkept

/-! ### Fewer entities, in another order -/

section

variable {ev : Evaluator} {query : Query} {root : Root}

/-- Entities that are chosen from a query with a result keep their values. -/
theorem apply_subperm (hq : query.DrawsNothing) (hn : query.aliases.Nodup)
    (hr : root.HasProperties) (g g' : Generator) {entries : Entries Value}
    (h : (ev.apply query root g).result = .ok (some entries)) {query' : Query}
    (hsub : query'.Subperm query) :
    ∃ entries', (ev.apply query' root g').result = .ok (some entries') ∧
      entries'.keys = query'.aliases ∧
      ∀ aliasName ∈ query'.aliases, ∃ value,
        entries'.get? aliasName = some value ∧ entries.get? aliasName = some value := by
  have hanswers := (Evaluator.apply_eq_ok_iff hq hr g).1 h
  have hmem : ∀ entity ∈ query', entity ∈ query := fun entity he => hsub.subset he
  have hq' : query'.DrawsNothing := Query.forall_preorder_of_subset hq hmem
  have hn' : query'.aliases.Nodup := nodup_aliases_of_subperm hsub hn
  -- the entries of the chosen entities, from the entries of all
  have hchosen : ∀ entity ∈ query', ∃ entry, ev.Answers root g' entity entry := by
    intro entity he
    obtain ⟨value, -, hvalue⟩ := Evaluator.get?_of_answers hanswers hn (hmem entity he)
    exact ⟨_, (Evaluator.answers_congr hq root (hmem entity he) g g').1 hvalue⟩
  obtain ⟨entries', hanswers'⟩ := exists_forall₂ hchosen
  refine ⟨entries', (Evaluator.apply_eq_ok_iff hq' hr g').2 hanswers',
    Evaluator.keys_of_answers hanswers', fun aliasName ha => ?_⟩
  obtain ⟨entity, he, rfl⟩ := List.mem_map.1 ha
  obtain ⟨value, hget, hvalue⟩ := Evaluator.get?_of_answers hanswers hn (hmem entity he)
  obtain ⟨value', hget', hvalue'⟩ := Evaluator.get?_of_answers hanswers' hn' he
  have hsame : (ev.answer root entity g).result = .ok value' :=
    ((Evaluator.answers_congr hq root (hmem entity he) g g').2 hvalue').2
  have heq : value' = value := Except.ok.inj (hsame.symm.trans hvalue.2)
  exact ⟨value, heq ▸ hget', hget⟩

/-- A query fails as the first of its entities does that fails as a query of its own. -/
theorem apply_eq_error_iff_alone (hq : query.DrawsNothing) (hr : root.HasProperties)
    (g g' : Generator) {e : EvalError} :
    (ev.apply query root g).result = .error e ↔
      ∃ before entity after, query = before ++ entity :: after ∧
        (∀ other ∈ before, ∃ entries,
          (ev.apply [other] root g').result = .ok (some entries)) ∧
        (ev.apply [entity] root g').result = .error e := by
  have halone : ∀ entity ∈ query, (ev.apply [entity] root g').result =
      (ev.answer root entity g).result.map fun value => some [(entity.aliasName, value)] := by
    intro entity he
    rw [Evaluator.apply_singleton hr, Eval.map_result,
      (Evaluator.steady_answer hq root he).result_eq g' g]
  rw [Evaluator.apply_eq_error_iff hq hr g]
  constructor
  · rintro ⟨before, entity, after, rfl, hbefore, hfails⟩
    refine ⟨before, entity, after, rfl, fun other ho => ?_, ?_⟩
    · obtain ⟨entry, -, hentry⟩ := hbefore other ho
      rw [halone other (List.mem_append_left _ ho), hentry]
      exact ⟨_, rfl⟩
    · rw [halone entity (by simp), hfails]
      rfl
  · rintro ⟨before, entity, after, rfl, hbefore, hfails⟩
    rw [halone entity (by simp)] at hfails
    refine ⟨before, entity, after, rfl, fun other ho => ?_, map_eq_error_iff.1 hfails⟩
    obtain ⟨entries, hentries⟩ := hbefore other ho
    rw [halone other (List.mem_append_left _ ho)] at hentries
    obtain ⟨value, hvalue, -⟩ := map_eq_ok_iff.1 hentries
    exact ⟨(other.aliasName, value), rfl, hvalue⟩

end

/-- **Siblings do not influence each other.** If a query that draws nothing has a result, so does
every choice of its entities in any order, under the same values; if it fails, it fails as the
first of its entities does that fails alone. -/
theorem apply_siblings (ev : Evaluator) {query : Query} (hq : query.DrawsNothing)
    (hn : query.aliases.Nodup) {root : Root} (hr : root.HasProperties) (g g' : Generator) :
    (∀ entries, (ev.apply query root g).result = .ok (some entries) →
      ∀ query' : Query, query'.Subperm query →
        ∃ entries', (ev.apply query' root g').result = .ok (some entries') ∧
          entries'.keys = query'.aliases ∧
          ∀ aliasName ∈ query'.aliases, ∃ value,
            entries'.get? aliasName = some value ∧ entries.get? aliasName = some value) ∧
      ∀ e, (ev.apply query root g).result = .error e ↔
        ∃ before entity after, query = before ++ entity :: after ∧
          (∀ other ∈ before, ∃ entries,
            (ev.apply [other] root g').result = .ok (some entries)) ∧
          (ev.apply [entity] root g').result = .error e := by
  constructor
  · intro entries hentries query' hsub
    exact apply_subperm hq hn hr g g' hentries hsub
  · intro e
    exact apply_eq_error_iff_alone hq hr g g'

/-- Two entities that are moved keep their values, and the limit on `null` fails alone as it
does between its siblings, the last of which would fail otherwise. -/
theorem apply_siblings_moved :
    let root : Root := .value (.object [("rows", .array [.integer 1, .integer 2]), ("n", .null)])
    let first : Entity := ⟨"first", "rows", none, none, [.limit 0 (some 1)]⟩
    let others : Entity := ⟨"others", "rows", none, none, [.limit 1 none]⟩
    let cut : Entity := ⟨"cut", "n", none, none, [.limit 0 none]⟩
    let broken : Entity := .ofPath "["
    let run (query : Query) (g : Generator) := (Evaluator.apply {} query root g).result
    let refused : Except EvalError Selection := .error (.wrongType "limit" "null")
    Query.DrawsNothing [others, first] ∧ Query.DrawsNothing [others, cut, broken] ∧
      root.HasProperties ∧
      (∃ entries, run [first, others] ⟨7⟩ = .ok (some entries) ∧
        entries.keys = ["first", "others"] ∧
        entries.get? "others" = some (.array [.integer 2])) ∧
      run [others, cut, broken] ⟨0⟩ = refused ∧
      ∃ before entity after, [others, cut, broken] = before ++ entity :: after ∧
        run [entity] ⟨7⟩ = refused := by
  intro root first others cut broken run refused
  have hr : root.HasProperties := by
    intro v hv
    rw [← Root.value.inj hv]
    rfl
  have hboth : run [others, first] ⟨0⟩ =
      .ok (some [("others", .array [.integer 2]), ("first", .array [.integer 1])]) := rfl
  have hfails : run [others, cut, broken] ⟨0⟩ = refused := rfl
  have hmoved := (apply_siblings {} (by decide) (by decide) hr ⟨0⟩ ⟨7⟩).1 _ hboth [first, others]
    (List.Perm.swap _ _ _).subperm
  have hfailing := (apply_siblings {} (by decide) (by decide) hr ⟨0⟩ ⟨7⟩).2 _ |>.1 hfails
  obtain ⟨entries, hentries, hkeys, hvalues⟩ := hmoved
  obtain ⟨value, hvalue, hothers⟩ := hvalues "others" (by decide)
  obtain ⟨before, entity, after, hquery, -, hentity⟩ := hfailing
  refine ⟨by decide, by decide, hr, ⟨entries, hentries, hkeys, ?_⟩, hfails, before, entity, after,
    hquery, hentity⟩
  rw [hvalue, ← hothers]
  rfl

end NestedQuery
