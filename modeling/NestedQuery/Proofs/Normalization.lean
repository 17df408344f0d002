/-
# Normalizers and JSON

The default normalizers do early what an evaluator without them does later or
leaves to JSON: collections are realized, and points in time become text. So
unless a query sorts, which is where a point in time and its text differ, its
results have the same JSON with these normalizers and without any.

Realizing is common to both. What an entity makes of a collection is what it
makes of the array of its items, so both chains start from the same realized
value, and differ only where that is a point in time. From there on the two
runs go in parallel: the same words are drawn, the values have the same JSON,
and those that modifiers work on are sequences of such values. Errors and
reports name the type of a value, so these may differ.

Key definitions: `Eval.Parallel`, `SameJson`, `Comparable`,
`Query.SortsNothing`, `Evaluator.bare`.
Key theorems: `parallel_runModifiers`, `Evaluator.descend_realize`,
`Evaluator.parallel_evaluate`, `Evaluator.parallel_apply`,
`apply_without_normalizers`.
-/
import NestedQuery.Proofs.ResultShape
import NestedQuery.Proofs.Steady
import NestedQuery.Value.Json

namespace NestedQuery

/-! ### Runs in parallel -/

section

variable {α β γ δ : Type} {R : α → β → Prop} {S : γ → δ → Prop}

/-- Both runs fail, or both give values, which are related, and leave the generator alike. What
was reported does not matter, nor which errors these are. -/
inductive Outcome.Parallel (R : α → β → Prop) : Outcome α → Outcome β → Prop
  | ok {a : α} {b : β} {ds ds' : List Diagnostic} {g : Generator} :
    R a b → Parallel R ⟨.ok a, ds, g⟩ ⟨.ok b, ds', g⟩
  | error {e e' : EvalError} {ds ds' : List Diagnostic} {g g' : Generator} :
    Parallel R ⟨.error e, ds, g⟩ ⟨.error e', ds', g'⟩

/-- Two evaluations that run in parallel from every state of the generator. -/
def Eval.Parallel (R : α → β → Prop) (x : Eval α) (y : Eval β) : Prop :=
  ∀ g, (x g).Parallel R (y g)

namespace Eval.Parallel

theorem pure {a : α} {b : β} (h : R a b) : Parallel R (pure a : Eval α) (pure b : Eval β) :=
  fun _ => .ok h

theorem refl {R : α → α → Prop} (h : ∀ a, R a a) (x : Eval α) : Parallel R x x := by
  intro g
  rcases x g with ⟨r, ds, g'⟩
  cases r with
  | ok a => exact .ok (h a)
  | error e => exact .error

theorem bind {x : Eval α} {y : Eval β} {f : α → Eval γ} {k : β → Eval δ} (h : Parallel R x y)
    (hf : ∀ {a b}, R a b → Parallel S (f a) (k b)) : Parallel S (x >>= f) (y >>= k) := by
  intro g
  have hg := h g
  generalize hx : x g = o at hg
  generalize hy : y g = o' at hg
  cases hg with
  | error =>
    rw [error_bind hx, error_bind hy]
    exact .error
  | @ok a b ds ds' g' hab =>
    rw [ok_bind hx, ok_bind hy]
    have hrest := hf hab g'
    generalize f a g' = o at hrest
    generalize k b g' = o' at hrest
    cases hrest with
    | ok hcd => exact .ok hcd
    | error => exact .error

/-- Two evaluations behind the same one. -/
theorem bind_same (x : Eval α) {f : α → Eval γ} {k : α → Eval δ}
    (hf : ∀ a, Parallel S (f a) (k a)) : Parallel S (x >>= f) (x >>= k) := by
  have hsame : Parallel Eq x x := refl (fun _ => rfl) x
  refine hsame.bind fun {a b} hab => ?_
  rw [← hab]
  exact hf a

theorem map {x : Eval α} {y : Eval β} {f : α → γ} {k : β → δ} (h : Parallel R x y)
    (hf : ∀ {a b}, R a b → S (f a) (k b)) : Parallel S (f <$> x) (k <$> y) := by
  rw [map_eq_pure_bind, map_eq_pure_bind]
  exact h.bind fun hab => pure (hf hab)

theorem mono {R' : α → β → Prop} {x : Eval α} {y : Eval β} (h : Parallel R x y)
    (hR : ∀ {a b}, R a b → R' a b) : Parallel R' x y := by
  have hmap := h.map (f := id) (k := id) hR
  rwa [id_map, id_map] at hmap

/-- A loop over the same items. -/
theorem forEach {f : α → Eval γ} {k : α → Eval δ} {xs : List α}
    (hf : ∀ x ∈ xs, Parallel S (f x) (k x)) :
    Parallel (List.Forall₂ S) (forEach f xs) (forEach k xs) := by
  induction xs with
  | nil => exact pure .nil
  | cons x xs ih =>
    obtain ⟨hx, hxs⟩ := List.forall_mem_cons.1 hf
    exact hx.bind fun hy => (ih hxs).bind fun hys => pure (.cons hy hys)

/-- Related items are drawn in the same order. -/
theorem shuffle {xs : List α} {ys : List β} (h : List.Forall₂ R xs ys) :
    Parallel (List.Forall₂ R) (shuffle xs) (shuffle ys) := by
  obtain ⟨ps, rfl, rfl⟩ := exists_pairs h
  intro g
  simp only [Eval.shuffle, Generator.shuffle_map]
  exact .ok (forall₂_pairs _)

end Eval.Parallel

end

/-! ### The same JSON -/

/-- The two values become the same JSON, or fail to with the same error. -/
def SameJson (v w : Value) : Prop := v.toJson = w.toJson

theorem itemsToJson_congr {items items' : List Value} (h : List.Forall₂ SameJson items items') :
    Value.itemsToJson items = Value.itemsToJson items' := by
  induction h with
  | nil => rfl
  | @cons v w _ _ hv _ ih =>
    have hjson : v.toJson = w.toJson := hv
    rw [Value.itemsToJson, Value.itemsToJson, hjson, ih]

theorem entriesToJson_congr {entries entries' : Entries Value}
    (h : Entries.Related SameJson entries entries') :
    Value.entriesToJson entries = Value.entriesToJson entries' := by
  induction h with
  | nil => rfl
  | @cons e e' _ _ he _ ih =>
    obtain ⟨key, v⟩ := e
    obtain ⟨key', w⟩ := e'
    obtain ⟨rfl, hv⟩ := he
    have hjson : v.toJson = w.toJson := hv
    rw [Value.entriesToJson, Value.entriesToJson, hjson, ih]

theorem toJson_congr {s s' : Selection} (h : Simulation.Selected SameJson s s') :
    s.toJson = s'.toJson := by
  cases h with
  | none => rfl
  | some he => rw [Selection.toJson, Selection.toJson, entriesToJson_congr he]

/-- A point in time becomes its text; any other value stays as it is. -/
def Value.isoText : Value → Value
  | .dateTime t => .string t.iso
  | v => v

/-- Values with the same JSON that modifiers take alike: arrays, objects with the same
keys, a text beside the point in time that it shows, or a value beside itself. -/
inductive Comparable : Value → Value → Prop
  | array {items items' : List Value} :
    List.Forall₂ SameJson items items' → Comparable (.array items) (.array items')
  | object {entries entries' : Entries Value} :
    Entries.Related SameJson entries entries' → Comparable (.object entries) (.object entries')
  | text (t : DateTime) : Comparable (.string t.iso) (.dateTime t)
  | same (v : Value) : Comparable v v

namespace Comparable

variable {v w : Value}

theorem sameJson (h : Comparable v w) : SameJson v w := by
  unfold SameJson
  cases h with
  | array hi => rw [Value.toJson, Value.toJson, itemsToJson_congr hi]
  | object he => rw [Value.toJson, Value.toJson, entriesToJson_congr he]
  | text t => rw [Value.toJson, Value.toJson]
  | same => rfl

theorem isoText (v : Value) : Comparable v.isoText v := by
  cases v with
  | dateTime t => exact .text t
  | _ => exact .same _

theorem toValue {s s' : Selection} (h : Simulation.Selected SameJson s s') :
    Comparable s.toValue s'.toValue := by
  cases h with
  | none => exact .same .null
  | some he => exact .object he

/-! ### Modifiers -/

theorem realize (h : Comparable v w) :
    Eval.Parallel Comparable (Eval.ofExcept v.realize) (Eval.ofExcept w.realize) := by
  cases h with
  | array hi => exact .pure (.array hi)
  | object he => exact .pure (.object he)
  | text t => exact .pure (.text t)
  | same => exact .refl .same _

theorem sequence (h : Comparable v w) (modifier : String) :
    Eval.Parallel (List.Forall₂ SameJson) (Eval.ofExcept (v.sequence modifier))
      (Eval.ofExcept (w.sequence modifier)) := by
  cases h with
  | array hi => exact .pure hi
  | object he => exact .pure he.values
  | text t => exact fun _ => .error
  | same =>
    have hitems : ∀ items, List.Forall₂ SameJson items items :=
      fun items => List.forall₂_same.2 fun _ _ => rfl
    exact .refl hitems _

theorem slice (h : Comparable v w) (offset : Nat) (count : Option Nat) :
    Eval.Parallel Comparable (Eval.ofExcept (v.slice offset count))
      (Eval.ofExcept (w.slice offset count)) := by
  cases h with
  | array hi => exact .pure (.array (forall₂_slice offset count hi))
  | object he => exact .pure (.object (forall₂_slice offset count he))
  | text t => exact fun _ => .error
  | same => exact .refl .same _

end Comparable

/-- Whether the modifier compares values. -/
def Modifier.isSort : Modifier → Bool
  | sort _ => true
  | _ => false

/-- No entity is sorted, at any depth. -/
def Query.SortsNothing (query : Query) : Prop :=
  ∀ entity ∈ Query.preorder query, ∀ m ∈ entity.modifiers, m.isSort = false

instance (query : Query) : Decidable query.SortsNothing :=
  inferInstanceAs
    (Decidable (∀ entity ∈ Query.preorder query, ∀ m ∈ entity.modifiers, m.isSort = false))

/-- A modifier that does not sort does the same to comparable values. -/
theorem parallel_runModifier (accessor : Accessor) (aliasName : String) {m : Modifier}
    (hm : m.isSort = false) {v w : Value} (h : Comparable v w) :
    Eval.Parallel Comparable (runModifier accessor aliasName m v)
      (runModifier accessor aliasName m w) := by
  cases m with
  | sort terms => cases hm
  | randomize =>
    refine (h.sequence "randomize").bind fun hitems => ?_
    refine (Eval.Parallel.shuffle hitems).bind fun hshuffled => ?_
    exact .bind_same _ fun _ => .pure (.array hshuffled)
  | limit offset count => exact h.slice offset count
  | generic keyword payload => exact .bind_same _ fun _ => .pure h

/-- So do modifiers one after the other. -/
theorem parallel_runModifiers (accessor : Accessor) (aliasName : String)
    {modifiers : List Modifier} (hm : ∀ m ∈ modifiers, m.isSort = false) {v w : Value}
    (h : Comparable v w) :
    Eval.Parallel Comparable (runModifiers accessor aliasName modifiers v)
      (runModifiers accessor aliasName modifiers w) := by
  induction modifiers generalizing v w with
  | nil => exact .pure h
  | cons m modifiers ih =>
    obtain ⟨hfirst, hothers⟩ := List.forall_mem_cons.1 hm
    exact (parallel_runModifier accessor aliasName hfirst h).bind (ih hothers)

/-! ### Where the chains part -/

theorem normalize_default_eq (v : Value) :
    normalize Normalizer.default v = v.realize.map Value.isoText := by
  cases v with
  | collection handle outcome => cases outcome <;> rfl
  | _ => rfl

namespace Evaluator

variable {ev : Evaluator}

/-- The evaluator without normalizers. -/
def bare (ev : Evaluator) : Evaluator := { ev with normalizers := [] }

/-- What an entity makes of a collection, it makes of the array of its items. -/
theorem descend_realize (entity : Entity) (v : Value) :
    ev.descend entity v >>= ev.finish entity =
      Eval.ofExcept v.realize >>= fun w => ev.descend entity w >>= ev.finish entity := by
  cases v with
  | collection handle outcome =>
    unfold descend
    cases entity.children with
    | none => cases outcome <;> rfl
    | some query =>
      dsimp only
      split <;> cases outcome <;> rfl
  | _ => rfl

/-- With the default chain an entity goes down into the realized value, or into its text. -/
theorem evaluate_default (hn : ev.normalizers = Normalizer.default) (entity : Entity) (v : Value) :
    ev.evaluate entity v =
      Eval.ofExcept (ev.materialize entity v) >>= fun u => Eval.ofExcept u.realize >>= fun w =>
        ev.descend entity w.isoText >>= ev.finish entity := by
  rw [evaluate_eq, prepare, hn]
  cases ev.materialize entity v with
  | error e => rfl
  | ok u =>
    show Eval.ofExcept (normalize Normalizer.default u) >>= _ = Eval.ofExcept u.realize >>= _
    rw [normalize_default_eq]
    cases u.realize <;> rfl

/-- Without normalizers it goes down into the realized value as it is. -/
theorem evaluate_bare (entity : Entity) (v : Value) :
    ev.bare.evaluate entity v =
      Eval.ofExcept (ev.materialize entity v) >>= fun u => Eval.ofExcept u.realize >>= fun w =>
        ev.bare.descend entity w >>= ev.bare.finish entity := by
  rw [evaluate_eq]
  show Eval.ofExcept ((ev.materialize entity v).bind _) >>= _ = _
  cases ev.materialize entity v with
  | error e => rfl
  | ok u => exact descend_realize entity u

/-! ### Entities -/

theorem parallel_finish {entity : Entity} (hm : ∀ m ∈ entity.modifiers, m.isSort = false)
    {v w : Value} (h : Comparable v w) :
    Eval.Parallel Comparable (ev.finish entity v) (ev.bare.finish entity w) :=
  h.realize.bind (parallel_runModifiers ev.accessor entity.aliasName hm)

/-- A sub-query that makes values with the same JSON of every value makes comparable ones of what
a value holds. -/
theorem parallel_project {entity : Entity} {query : List Entity}
    (hq : ∀ v, Eval.Parallel (Simulation.Selected SameJson) (ev.select (entity :: query) v)
      (ev.bare.select (entity :: query) v)) (v : Value) :
    Eval.Parallel Comparable (ev.project (ev.select (entity :: query)) v.isoText)
      (ev.bare.project (ev.bare.select (entity :: query)) v) := by
  have hvalue : ∀ v, Eval.Parallel Comparable
      (Selection.toValue <$> ev.select (entity :: query) v)
      (Selection.toValue <$> ev.bare.select (entity :: query) v) :=
    fun v => (hq v).map Comparable.toValue
  have hitems : ∀ items, Eval.Parallel Comparable
      (Value.array <$> Eval.forEach
        (fun item => Selection.toValue <$> ev.select (entity :: query) item) items)
      (Value.array <$> Eval.forEach
        (fun item => Selection.toValue <$> ev.bare.select (entity :: query) item) items) :=
    fun items => (Eval.Parallel.forEach fun item _ => (hvalue item).mono Comparable.sameJson).map
      Comparable.array
  cases v with
  | array items => exact hitems items
  | collection handle outcome => exact .bind_same (Eval.ofExcept outcome) hitems
  | object entries =>
    have hr : ev.bare.recursion = ev.recursion := rfl
    show Eval.Parallel Comparable (ev.project _ (.object entries)) _
    unfold project
    rw [hr]
    cases ev.recursion with
    | direct => exact hvalue _
    | elementWise =>
      refine (Eval.Parallel.forEach fun entry _ => ?_).map Comparable.object
      exact (hq entry.2).map fun hs => ⟨rfl, (Comparable.toValue hs).sameJson⟩
  | dateTime t =>
    -- neither the text nor the point in time has properties
    intro g
    show Outcome.Parallel Comparable ((Selection.toValue <$> ev.select (entity :: query) _) g)
      ((Selection.toValue <$> ev.bare.select (entity :: query) _) g)
    rw [Eval.map_apply, Eval.map_apply, select_scalar rfl, select_scalar rfl]
    exact .ok (.same .null)
  | _ => exact hvalue _

mutual

/-- A query that sorts nothing selects values with the same JSON. -/
theorem parallel_select (hn : ev.normalizers = Normalizer.default) : ∀ query : List Entity,
    Query.SortsNothing query → ∀ root,
    Eval.Parallel (Simulation.Selected SameJson) (ev.select query root) (ev.bare.select query root)
  | [], _, root => by
    unfold select
    exact .pure (.some .nil)
  | entity :: query, hq, root => by
    obtain ⟨⟨hentity, hchildren⟩, hothers⟩ := Query.forall_preorder_cons.1 hq
    unfold select
    refine .bind_same (ev.locate root entity) fun found => ?_
    cases found with
    | none => exact .pure .none
    | some v =>
      refine (parallel_evaluate hn entity hentity hchildren v).bind fun hvalue => ?_
      refine (parallel_select hn query hothers root).bind fun hs => .pure ?_
      cases hs with
      | none => exact .none
      | some he => exact .some (.cons ⟨rfl, hvalue⟩ he)

theorem parallel_evaluate (hn : ev.normalizers = Normalizer.default) : ∀ entity : Entity,
    (∀ m ∈ entity.modifiers, m.isSort = false) →
    (∀ children ∈ entity.children, Query.SortsNothing children) →
    ∀ v, Eval.Parallel SameJson (ev.evaluate entity v) (ev.bare.evaluate entity v)
  | ⟨aliasName, path, identifier, children, modifiers⟩, hm, hc, v => by
    rw [evaluate_default hn, evaluate_bare]
    refine .bind_same _ fun u => .bind_same _ fun w => ?_
    refine Eval.Parallel.bind (R := Comparable) ?_ fun h =>
      (parallel_finish hm h).mono Comparable.sameJson
    cases children with
    | none => exact .pure (.isoText w)
    | some query =>
      cases query with
      | nil => exact .pure (.isoText w)
      | cons entity query => exact parallel_project (parallel_select hn _ (hc _ rfl)) w

end

/-- So does applying the query, whatever kind of root it is applied to. -/
theorem parallel_apply (hn : ev.normalizers = Normalizer.default) {query : Query}
    (hq : query.SortsNothing) (root : Root) :
    Eval.Parallel (Simulation.Selected SameJson) (ev.apply query root)
      (ev.bare.apply query root) := by
  cases root with
  | value v => exact parallel_select hn query hq v
  | resolver resolve =>
    refine (Eval.Parallel.forEach fun entity he => ?_).map .some
    obtain ⟨hentity, hchildren⟩ := Query.forall_preorder_of_mem hq he
    refine .bind_same _ fun v => ?_
    exact (parallel_evaluate hn entity hentity hchildren v).bind fun hvalue => .pure ⟨rfl, hvalue⟩

end Evaluator

/-- **JSON does not show the default normalizers.** A query that sorts nothing fails with them and
without them, has no result with them and without them, or has results with the same JSON. -/
theorem apply_without_normalizers (accessor : Accessor) (recursion : ObjectRecursion)
    {query : Query} (hq : query.SortsNothing) (root : Root) (g : Generator) :
    let usual : Evaluator := { accessor, normalizers := Normalizer.default, recursion }
    let bare : Evaluator := { accessor, normalizers := [], recursion }
    let result := (usual.apply query root g).result
    let result' := (bare.apply query root g).result
    (∃ e e', result = .error e ∧ result' = .error e') ∨
      (result = .ok none ∧ result' = .ok none) ∨
      ∃ entries entries', result = .ok (some entries) ∧ result' = .ok (some entries') ∧
        Selection.toJson (some entries) = Selection.toJson (some entries') := by
  intro usual bare result result'
  have hn : usual.normalizers = Normalizer.default := rfl
  have hparallel : (usual.apply query root g).Parallel (Simulation.Selected SameJson)
      (bare.apply query root g) := Evaluator.parallel_apply hn hq root g
  rcases hu : usual.apply query root g with ⟨r, ds, g'⟩
  rcases hb : bare.apply query root g with ⟨r', ds', g''⟩
  have hr : result = r := congrArg Outcome.result hu
  have hr' : result' = r' := congrArg Outcome.result hb
  rw [hu, hb] at hparallel
  rw [hr, hr']
  cases hparallel with
  | error => exact .inl ⟨_, _, rfl, rfl⟩
  | ok hs =>
    have hjson := toJson_congr hs
    cases hs with
    | none => exact .inr (.inl ⟨rfl, rfl⟩)
    | some => exact .inr (.inr ⟨_, _, rfl, rfl, hjson⟩)

/-- A date, and one in a collection that is cut: only the first of them becomes text early. -/
theorem apply_without_normalizers_dates :
    let start : DateTime := ⟨0, 0, 7200⟩
    let later : DateTime := ⟨86400, 0, 0⟩
    let days : Value := .collection 0 (.ok [.dateTime start, .dateTime later])
    let root : Root := .value (.object [("at", .dateTime start), ("days", days)])
    let query : Query :=
      [⟨"at", "at", none, none, []⟩, ⟨"day", "days", none, none, [.limit 1 none]⟩]
    let result := (Evaluator.apply {} query root ⟨0⟩).result
    let result' := (Evaluator.apply { normalizers := [] } query root ⟨0⟩).result
    query.SortsNothing ∧ ∃ entries entries',
      result = .ok (some entries) ∧ result' = .ok (some entries') ∧
        entries.get? "at" = some (.string start.iso) ∧
        entries'.get? "at" = some (.dateTime start) ∧
        Selection.toJson (some entries) = Selection.toJson (some entries') := by
  intro start later days root query result result'
  have hresult : result =
      .ok (some [("at", .string start.iso), ("day", .array [.dateTime later])]) := rfl
  have hresult' : result' =
      .ok (some [("at", .dateTime start), ("day", .array [.dateTime later])]) := rfl
  have hs : query.SortsNothing := by decide
  refine ⟨hs, _, _, hresult, hresult', rfl, rfl, ?_⟩
  obtain ⟨e, -, he, -⟩ | ⟨hnone, -⟩ | ⟨entries, entries', hu, hb, hjson⟩ :=
    apply_without_normalizers {} .elementWise hs root ⟨0⟩
  · cases hresult.symm.trans he
  · cases hresult.symm.trans hnone
  · have heq : some entries = some _ := Except.ok.inj (hu.symm.trans hresult)
    have heq' : some entries' = some _ := Except.ok.inj (hb.symm.trans hresult')
    rw [← heq, ← heq']
    exact hjson

end NestedQuery
