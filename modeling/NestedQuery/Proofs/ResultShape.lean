/-
# The shape of results

A query gives one value for each of its aliases, in order, or nothing if its
root is a scalar; nothing is lost, added or moved. A sub-query keeps the
shape of the value that it is applied to: it gives as many items as a
sequence has and the keys that an object has, and in place of what each of
them holds there is `null` or one object with an entry for each alias. The
values of these entries are of the shape that their own entities ask for.

Modifiers come last. They work on a value of that shape, which an entity
without modifiers gives as it is.

Key definitions: `Single`, `Spread`, `Evaluator.Finds`, `Evaluator.Shaped`,
`Evaluator.Fields`.
Key theorems: `Evaluator.yields_project`, `Evaluator.yields_select`,
`Evaluator.yields_evaluate`, `apply_resultShape`.
-/
import NestedQuery.Proofs.Runs
import NestedQuery.Proofs.Simulation

namespace NestedQuery

/-! ### Shapes -/

/-- What a sub-query makes of one value, given what the entries of the object are. -/
inductive Single (fields : Value → Entries Value → Prop) : Value → Value → Prop
  | scalar {v : Value} : v.isScalar → Single fields v .null
  | object {v : Value} {entries : Entries Value} :
    v.isScalar = false → fields v entries → Single fields v (.object entries)

/-- What a sub-query makes of a value and of what that holds, given what it makes of one value. -/
inductive Spread (recursion : ObjectRecursion) (single : Value → Value → Prop) :
    Value → Value → Prop
  | array {items results : List Value} :
    List.Forall₂ single items results → Spread recursion single (.array items) (.array results)
  | object {entries results : Entries Value} : recursion = .elementWise →
    Entries.Related single entries results →
      Spread recursion single (.object entries) (.object results)
  | single {v result : Value} : (∀ items, v ≠ .array items) →
    (recursion = .elementWise → ∀ entries, v ≠ .object entries) → single v result →
    Spread recursion single v result

namespace Evaluator

/-- The value that an entity names in the root is found there. -/
def Finds (ev : Evaluator) : Root → Entity → Value → Prop
  | .value v, entity, found => (ev.locate v entity).Yields (some found)
  | .resolver resolve, entity, found => resolve entity.path entity = .ok found

mutual

/-- The result is of the shape that the entity asks for where this value was found: what the
sub-query makes of the prepared value, run through the modifiers. -/
def Shaped (ev : Evaluator) : Entity → Value → Value → Prop
  | ⟨aliasName, path, identifier, some (child :: children), modifiers⟩, found, result =>
    ∃ v projected,
      ev.prepare ⟨aliasName, path, identifier, some (child :: children), modifiers⟩ found = .ok v ∧
      Spread ev.recursion (Single fun w => Fields ev (child :: children) (.value w)) v projected ∧
      (runModifiers ev.accessor aliasName modifiers projected).Yields result
  | ⟨_, _, _, some [], _⟩, _, _ => True
  | ⟨_, _, _, none, _⟩, _, _ => True

/-- The entries are those that the query asks for where it is applied to this root: one for each
alias in order, of the shape of what was found for its entity. -/
def Fields (ev : Evaluator) : List Entity → Root → Entries Value → Prop
  | [], _, entries => entries = []
  | entity :: query, root, entries =>
    ∃ value others, entries = (entity.aliasName, value) :: others ∧
      (∃ found, ev.Finds root entity found ∧ Shaped ev entity found value) ∧
      Fields ev query root others

end

/-- Without modifiers the result is what the sub-query makes of the prepared value. -/
theorem spread_of_shaped {ev : Evaluator} {entity : Entity} {children : List Entity}
    {found result : Value} (h : ev.Shaped entity found result)
    (hc : entity.children = some children) (hne : children ≠ []) (hm : entity.modifiers = []) :
    ∃ v, ev.prepare entity found = .ok v ∧
      Spread ev.recursion (Single fun w => ev.Fields children (.value w)) v result := by
  obtain ⟨aliasName, path, identifier, children', modifiers⟩ := entity
  obtain ⟨child, children, rfl⟩ := List.exists_cons_of_ne_nil hne
  cases hc
  cases hm
  rw [Shaped] at h
  obtain ⟨v, projected, hv, hspread, hr⟩ := h
  rw [Eval.yields_pure_iff.1 hr]
  exact ⟨v, hv, hspread⟩

/-- Each entry is the one that its own entity asks for. -/
theorem fields_iff_forall₂ {ev : Evaluator} {query : List Entity} {root : Root}
    {entries : Entries Value} :
    ev.Fields query root entries ↔
      List.Forall₂ (fun entity entry => entry.1 = entity.aliasName ∧
        ∃ found, ev.Finds root entity found ∧ ev.Shaped entity found entry.2) query entries := by
  induction query generalizing entries with
  | nil => rw [Fields, List.forall₂_nil_left_iff]
  | cons entity query ih =>
    rw [Fields, List.forall₂_cons_left_iff]
    constructor
    · rintro ⟨value, others, rfl, hvalue, hothers⟩
      exact ⟨(entity.aliasName, value), others, ⟨rfl, hvalue⟩, ih.1 hothers, rfl⟩
    · rintro ⟨⟨key, value⟩, others, ⟨rfl, hvalue⟩, hothers, rfl⟩
      exact ⟨value, others, rfl, hvalue, ih.2 hothers⟩

theorem keys_of_fields {ev : Evaluator} {query : List Entity} {root : Root}
    {entries : Entries Value} (h : ev.Fields query root entries) :
    entries.keys = Query.aliases query := by
  have hkeys : List.Forall₂ Eq (Query.aliases query) entries.keys := by
    rw [Query.aliases, Entries.keys, List.forall₂_map_left_iff, List.forall₂_map_right_iff]
    exact (fields_iff_forall₂.1 h).imp fun _ _ he => he.1.symm
  rw [List.forall₂_eq_eq_eq] at hkeys
  exact hkeys.symm

end Evaluator

/-! ### The parts of an evaluation -/

namespace Value

variable {v w : Value}

theorem Realized.realize (h : v.Realized) : v.realize = .ok v := by
  cases v with
  | collection handle outcome => exact (h handle outcome rfl).elim
  | _ => rfl

/-- The steps of the default chain leave no collection. -/
theorem realized_of_normalize_default (h : normalize Normalizer.default v = .ok w) :
    w.Realized := by
  cases v with
  | collection handle outcome =>
    cases outcome with
    | error e => cases h
    | ok items =>
      cases h
      exact realized_array items
  | _ =>
    cases h
    exact nofun

end Value

/-- What a sub-query makes of one value is no collection. -/
theorem Single.realized {fields : Value → Entries Value → Prop} {v result : Value}
    (h : Single fields v result) : result.Realized := by
  cases h with
  | scalar => exact Value.realized_scalar rfl
  | object => exact Value.realized_object _

theorem Spread.realized {recursion : ObjectRecursion} {fields : Value → Entries Value → Prop}
    {v result : Value} (h : Spread recursion (Single fields) v result) : result.Realized := by
  cases h with
  | array => exact Value.realized_array _
  | object => exact Value.realized_object _
  | single _ _ hs => exact hs.realized

namespace Evaluator

variable {ev : Evaluator} {v result : Value} {entity : Entity}

/-- Under the default chain a prepared value was materialized and went through the chain. -/
theorem prepare_eq_ok_iff (hn : ev.normalizers = Normalizer.default) :
    ev.prepare entity v = .ok result ↔
      ∃ w, ev.materialize entity v = .ok w ∧ normalize Normalizer.default w = .ok result := by
  unfold prepare
  rw [hn]
  cases ev.materialize entity v with
  | error e => exact iff_of_false nofun nofun
  | ok w => exact ⟨fun h => ⟨w, rfl, h⟩, fun ⟨_, hw, h⟩ => Except.ok.inj hw ▸ h⟩

theorem realized_of_prepare (hn : ev.normalizers = Normalizer.default)
    (h : ev.prepare entity v = .ok result) : result.Realized := by
  obtain ⟨w, -, hnormalize⟩ := (prepare_eq_ok_iff hn).1 h
  exact Value.realized_of_normalize_default hnormalize

theorem isScalar_of_yields_locate {found : Option Value} (h : (ev.locate v entity).Yields found) :
    v.isScalar = found.isNone := by
  by_cases hs : v.isScalar
  · rw [locate_scalar ev hs] at h
    obtain ⟨-, -, h⟩ := Eval.yields_bind h
    rw [Eval.yields_pure_iff.1 h, hs]
    rfl
  · have hsome : ∀ {x : Except EvalError Value}, (some <$> Eval.ofExcept x).Yields found →
        v.isScalar = found.isNone := by
      intro x hx
      obtain ⟨w, -, rfl⟩ := Eval.yields_map hx
      exact Bool.eq_false_iff.2 hs
    cases v with
    | null | boolean | integer | float | string | dateTime => exact (hs rfl).elim
    | _ => exact hsome h

/-- A sub-query is applied to each item of a sequence and to each value of an object, or to the
value itself. -/
theorem yields_project {subQuery : Value → Eval Selection} {single : Value → Value → Prop}
    (hq : ∀ {w s}, (subQuery w).Yields s → single w s.toValue) (hv : v.Realized)
    (h : (ev.project subQuery v).Yields result) : Spread ev.recursion single v result := by
  have hsingle : ∀ {w r : Value}, (Selection.toValue <$> subQuery w).Yields r → single w r := by
    intro w r hr
    obtain ⟨s, hs, rfl⟩ := Eval.yields_map hr
    exact hq hs
  cases v with
  | array items =>
    obtain ⟨results, hr, rfl⟩ := Eval.yields_map h
    exact .array ((Eval.forall₂_of_yields_forEach hr).imp fun _ _ => hsingle)
  | collection handle outcome => exact (hv handle outcome rfl).elim
  | object entries =>
    unfold project at h
    cases hrec : ev.recursion with
    | direct =>
      rw [hrec] at h
      exact .single nofun nofun (hsingle h)
    | elementWise =>
      rw [hrec] at h
      obtain ⟨results, hr, rfl⟩ := Eval.yields_map h
      refine .object rfl ((Eval.forall₂_of_yields_forEach hr).imp fun entry r he => ?_)
      obtain ⟨s, hs, rfl⟩ := Eval.yields_map he
      exact ⟨rfl, hq hs⟩
  | _ => exact .single nofun nofun (hsingle h)

/-- The modifiers run on what is there before them, which is no collection. -/
theorem yields_finish (hv : v.Realized) (h : (ev.finish entity v).Yields result) :
    (runModifiers ev.accessor entity.aliasName entity.modifiers v).Yields result := by
  unfold finish at h
  rw [hv.realize] at h
  exact h

/-! ### Queries -/

/-- What a query selects from a root: nothing of a scalar if it has an entity, and otherwise an
entry for each of its aliases. -/
inductive Selects (ev : Evaluator) (query : List Entity) (v : Value) : Selection → Prop
  | none : query ≠ [] → v.isScalar → Selects ev query v none
  | some {entries : Entries Value} : (query = [] ∨ v.isScalar = false) →
    ev.Fields query (.value v) entries → Selects ev query v (some entries)

theorem Selects.single {query : List Entity} {s : Selection} (h : ev.Selects query v s)
    (hq : query ≠ []) : Single (fun w => ev.Fields query (.value w)) v s.toValue := by
  cases h with
  | none _ hs => exact .scalar hs
  | some hs he => exact .object (hs.resolve_left hq) he

mutual

theorem yields_select (hn : ev.normalizers = Normalizer.default) : ∀ (query : List Entity)
    {v : Value} {s : Selection}, (ev.select query v).Yields s → ev.Selects query v s
  | [], v, s, h => by
    rw [select, Eval.yields_pure_iff] at h
    rw [h]
    exact .some (.inl rfl) (by rw [Fields])
  | entity :: query, v, s, h => by
    rw [select] at h
    obtain ⟨found, hfound, h⟩ := Eval.yields_bind h
    have hs := isScalar_of_yields_locate hfound
    cases found with
    | none =>
      rw [Eval.yields_pure_iff.1 h]
      exact .none (by simp) hs
    | some w =>
      obtain ⟨value, hvalue, h⟩ := Eval.yields_bind h
      obtain ⟨others, hothers, h⟩ := Eval.yields_bind h
      rw [Eval.yields_pure_iff.1 h]
      cases yields_select hn query hothers with
      | none _ hs' =>
        rw [hs'] at hs
        cases hs
      | some _ he =>
        refine .some (.inr hs) ?_
        rw [Fields]
        exact ⟨value, _, rfl, ⟨w, hfound, yields_evaluate hn entity hvalue⟩, he⟩

theorem yields_evaluate (hn : ev.normalizers = Normalizer.default) : ∀ (entity : Entity)
    {v result : Value}, (ev.evaluate entity v).Yields result → ev.Shaped entity v result
  | ⟨_, _, _, none, _⟩, _, _, _ => by
    rw [Shaped]
    exact trivial
  | ⟨_, _, _, some [], _⟩, _, _, _ => by
    rw [Shaped]
    exact trivial
  | ⟨aliasName, path, identifier, some (child :: children), modifiers⟩, v, result, h => by
    rw [evaluate] at h
    obtain ⟨w, hw, h⟩ := Eval.yields_bind h
    obtain ⟨projected, hp, h⟩ := Eval.yields_bind h
    rw [Eval.yields_ofExcept_iff] at hw
    have hrealized := realized_of_prepare hn hw
    have hspread := yields_project (fun hs => (yields_select hn (child :: children) hs).single
      (by simp)) hrealized hp
    rw [Shaped]
    exact ⟨w, projected, hw, hspread, yields_finish hspread.realized h⟩

end

/-- A resolver gives a value for every entity. -/
theorem fields_of_yields_resolver (hn : ev.normalizers = Normalizer.default) {query : List Entity}
    {resolve : String → Entity → Except EvalError Value} {entries : Entries Value}
    (h : (Eval.forEach (fun entity => do
      let v ← Eval.ofExcept (resolve entity.path entity)
      let value ← ev.evaluate entity v
      pure (entity.aliasName, value)) query).Yields entries) :
    ev.Fields query (.resolver resolve) entries := by
  refine fields_iff_forall₂.2 ((Eval.forall₂_of_yields_forEach h).imp fun entity entry he => ?_)
  obtain ⟨found, hfound, he⟩ := Eval.yields_bind he
  obtain ⟨value, hvalue, he⟩ := Eval.yields_bind he
  rw [Eval.yields_pure_iff.1 he]
  exact ⟨rfl, found, Eval.yields_ofExcept_iff.1 hfound, yields_evaluate hn entity hvalue⟩

theorem select_scalar (h : v.isScalar) (entity : Entity) (query : List Entity) (g : Generator) :
    ev.select (entity :: query) v g =
      ⟨.ok none, [.unresolvedRoot v.typeName entity.path], g⟩ := by
  rw [select, locate_scalar ev h]
  rfl

end Evaluator

/-- **The shape of results.** There is no result exactly if the root is a scalar and the query has
an entity, and then this was the one thing reported, as a warning. Otherwise the keys of the result
are the aliases of the query in order, and every value, at any depth, is of the shape that its
entity asks for. An entity that has a sub-query and no modifiers gives what the sub-query makes of
the entity's value and of what that holds. -/
theorem apply_resultShape (accessor : Accessor) (recursion : ObjectRecursion) (query : Query)
    (root : Root) (g : Generator) :
    let ev : Evaluator := { accessor, recursion }
    let o := ev.apply query root g
    (o.result = .ok none ↔ query ≠ [] ∧ ∃ v, root = .value v ∧ v.isScalar) ∧
      (o.result = .ok none → ∃ d type, o.reports = [d] ∧ d.level = .warning ∧
        d.kind = .unresolvedRoot type) ∧
      (∀ entries, o.result = .ok (some entries) →
        entries.keys = query.aliases ∧ ev.Fields query root entries) ∧
      ∀ (entity : Entity) (children : List Entity) (found result : Value) (g' : Generator),
        entity.children = some children → children ≠ [] → entity.modifiers = [] →
        (ev.evaluate entity found g').result = .ok result →
        ∃ v, ev.prepare entity found = .ok v ∧
          Spread ev.recursion (Single fun w => ev.Fields children (.value w)) v result := by
  intro ev o
  have hn : ev.normalizers = Normalizer.default := rfl
  have hfields : ∀ entries, o.result = .ok (some entries) → ev.Fields query root entries := by
    intro entries he
    cases root with
    | value v =>
      cases Evaluator.yields_select hn query ⟨g, he⟩ with
      | some _ hf => exact hf
    | resolver resolve =>
      obtain ⟨entries', hy, hs⟩ := Eval.yields_map ⟨g, he⟩
      rw [Option.some.inj hs]
      exact Evaluator.fields_of_yields_resolver hn hy
  have hkeys : ∀ entries, o.result = .ok (some entries) →
      entries.keys = query.aliases ∧ ev.Fields query root entries :=
    fun entries he => ⟨Evaluator.keys_of_fields (hfields entries he), hfields entries he⟩
  have hscalar : ∀ v, root = .value v → v.isScalar → query ≠ [] →
      ∃ path, o = ⟨.ok none, [.unresolvedRoot v.typeName path], g⟩ := by
    rintro v rfl hs hq
    obtain ⟨entity, others, rfl⟩ := List.exists_cons_of_ne_nil hq
    exact ⟨entity.path, Evaluator.select_scalar hs entity others g⟩
  have hnone : o.result = .ok none → query ≠ [] ∧ ∃ v, root = .value v ∧ v.isScalar := by
    intro ho
    cases root with
    | value v =>
      cases Evaluator.yields_select hn query ⟨g, ho⟩ with
      | none hq hs => exact ⟨hq, v, rfl, hs⟩
    | resolver resolve =>
      obtain ⟨entries, -, hs⟩ := Eval.yields_map ⟨g, ho⟩
      cases hs
  refine ⟨⟨hnone, ?_⟩, fun ho => ?_, hkeys,
    fun entity children found result g' hc hne hm he => ?_⟩
  · rintro ⟨hq, v, hv, hs⟩
    obtain ⟨path, ho⟩ := hscalar v hv hs hq
    rw [ho]
  · obtain ⟨hq, v, hv, hs⟩ := hnone ho
    obtain ⟨path, ho⟩ := hscalar v hv hs hq
    exact ⟨_, v.typeName, by rw [ho], rfl, rfl⟩
  · exact Evaluator.spread_of_shaped (Evaluator.yields_evaluate hn entity ⟨g', he⟩) hc hne hm

example :
    let query : Query := [⟨"posts", "posts", none, some [⟨"title", "title", none, none, []⟩], []⟩]
    let posts : Value := .array [.object [("id", .integer 1), ("title", .string "First")], .null]
    (Evaluator.apply {} query (.value (.object [("posts", posts)])) ⟨0⟩).result =
      .ok (some [("posts", .array [.object [("title", .string "First")], .null])]) := rfl

end NestedQuery
