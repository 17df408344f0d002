/-
# What is stored

An entity computes a deferred value that it finds, and the default chain makes
arrays of collections and texts of points in time. A sub-query gives an array
or an object or `null`, and modifiers take arrays and objects apart and nothing
else. So no collection and no point in time is ever stored, whatever the data.

Deferred values are computed once only. What one of them computes to is stored
as it is by an entity without a sub-query, and if that is a deferred value
again, it stays deferred (`Evaluator.Settled.deferred_iff`). There is no other
way to store one, so data in which no deferred value computes to another
(`Value.Shallow`) leaves none behind.

That a property holds of all values stored in a run, at any depth of the query,
follows from what it says about a single entity (`Evaluator.yields_storesAll`).

Key definitions: `Value.Material`, `Value.Shallow`, `Evaluator.Settled`,
`Evaluator.Keeps`, `Evaluator.Stores`, `Evaluator.StoresAll`.
Key theorems: `Evaluator.settled_of_yields`, `Evaluator.keeps_shallow`,
`Evaluator.yields_storesAll`, `apply_stores`.
-/
import Mathlib.Data.List.Forall2
import Mathlib.Tactic
import NestedQuery.Proofs.Normalization
import NestedQuery.Proofs.ResultShape
import NestedQuery.Proofs.Siblings

namespace NestedQuery

/-! ### Values that are computed -/

namespace Value

/-- No collection, no point in time, and not deferred. -/
structure Material (v : Value) : Prop where
  realized : v.Realized
  timeless : ∀ t, v ≠ .dateTime t
  computed : ∀ handle compute, v ≠ .deferred handle compute

/-- An array or an object, which modifiers can take apart. -/
def IsContainer : Value → Prop
  | array _ | object _ => True
  | _ => False

variable {v w : Value}

theorem IsContainer.material (h : v.IsContainer) : v.Material := by
  cases v with
  | array items => exact ⟨nofun, nofun, nofun⟩
  | object entries => exact ⟨nofun, nofun, nofun⟩
  | _ => exact h.elim

theorem material_null : Material null := ⟨nofun, nofun, nofun⟩

theorem isContainer_of_sequence {modifier : String} {items : List Value}
    (h : v.sequence modifier = .ok items) : v.IsContainer := by
  cases v with
  | array items => trivial
  | object entries => trivial
  | _ => cases h

theorem isContainer_of_slice {offset : Nat} {count : Option Nat}
    (h : v.slice offset count = .ok w) : v.IsContainer ∧ w.IsContainer := by
  cases v with
  | array items =>
    cases h
    exact ⟨trivial, trivial⟩
  | object entries =>
    cases h
    exact ⟨trivial, trivial⟩
  | _ => cases h

/-- The default chain leaves deferred values and no collection or point in time. -/
theorem normalize_default_settles (h : normalize Normalizer.default v = .ok w) :
    w.Realized ∧ (∀ t, w ≠ .dateTime t) ∧
      ∀ handle compute, w = .deferred handle compute ↔ v = .deferred handle compute := by
  refine ⟨realized_of_normalize_default h, ?_⟩
  cases v with
  | collection handle outcome =>
    cases outcome with
    | error e => cases h
    | ok items =>
      cases h
      exact ⟨nofun, fun _ _ => ⟨nofun, nofun⟩⟩
  | dateTime t =>
    cases h
    exact ⟨nofun, fun _ _ => ⟨nofun, nofun⟩⟩
  | _ =>
    cases h
    exact ⟨nofun, fun _ _ => Iff.rfl⟩

end Value

/-- What a sub-query makes of a value is computed if it is for a single one. -/
theorem Spread.material {recursion : ObjectRecursion} {v result : Value}
    (h : Spread recursion (fun _ r => r.Material) v result) : result.Material := by
  cases h with
  | array => exact Value.IsContainer.material trivial
  | object => exact Value.IsContainer.material trivial
  | single _ _ hs => exact hs

theorem Selection.material_toValue (s : Selection) : s.toValue.Material := by
  cases s with
  | none => exact Value.material_null
  | some entries => exact Value.IsContainer.material trivial

/-- A modifier gives what it was given, or takes it apart. -/
theorem eq_or_isContainer_of_yields_runModifier {accessor : Accessor} {aliasName : String}
    {m : Modifier} {v w : Value} (h : (runModifier accessor aliasName m v).Yields w) :
    w = v ∨ v.IsContainer ∧ w.IsContainer := by
  cases m with
  | randomize =>
    obtain ⟨items, hitems, h⟩ := Eval.yields_bind h
    obtain ⟨shuffled, -, h⟩ := Eval.yields_bind h
    obtain ⟨-, -, h⟩ := Eval.yields_bind h
    rw [Eval.yields_pure_iff.1 h]
    exact .inr ⟨Value.isContainer_of_sequence (Eval.yields_ofExcept_iff.1 hitems), trivial⟩
  | sort terms =>
    obtain ⟨items, hitems, h⟩ := Eval.yields_bind h
    obtain ⟨-, -, h⟩ := Eval.yields_bind h
    obtain ⟨sorted, -, h⟩ := Eval.yields_bind h
    obtain ⟨-, -, h⟩ := Eval.yields_bind h
    rw [Eval.yields_pure_iff.1 h]
    exact .inr ⟨Value.isContainer_of_sequence (Eval.yields_ofExcept_iff.1 hitems), trivial⟩
  | limit offset count => exact .inr (Value.isContainer_of_slice (Eval.yields_ofExcept_iff.1 h))
  | generic keyword payload =>
    obtain ⟨-, -, h⟩ := Eval.yields_bind h
    exact .inl (Eval.yields_pure_iff.1 h)

theorem eq_or_isContainer_of_yields_runModifiers {accessor : Accessor} {aliasName : String}
    {modifiers : List Modifier} {v w : Value}
    (h : (runModifiers accessor aliasName modifiers v).Yields w) :
    w = v ∨ v.IsContainer ∧ w.IsContainer := by
  induction modifiers generalizing v with
  | nil => exact .inl (Eval.yields_pure_iff.1 h)
  | cons m modifiers ih =>
    obtain ⟨u, hu, h⟩ := Eval.yields_bind h
    have hfirst := eq_or_isContainer_of_yields_runModifier hu
    have hothers := ih h
    rcases hfirst with rfl | ⟨hv, hu⟩
    · exact hothers
    · rcases hothers with rfl | ⟨-, hw⟩
      · exact .inr ⟨hv, hu⟩
      · exact .inr ⟨hv, hw⟩

/-! ### One entity -/

namespace Evaluator

variable {ev : Evaluator} {entity : Entity} {found stored v w : Value}

/-- The value that an entity stored is no collection and no point in time, and it is deferred only
if the entity is a leaf and found a deferred value that computed to this one. -/
structure Settled (ev : Evaluator) (entity : Entity) (found stored : Value) : Prop where
  realized : stored.Realized
  timeless : ∀ t, stored ≠ .dateTime t
  deferred_iff : ∀ handle compute, stored = .deferred handle compute ↔
    entity.isLeaf ∧ ∃ handle' compute', found = .deferred handle' compute' ∧
      compute' entity ev.accessor = .ok (.deferred handle compute)

theorem materialize_eq_deferred_iff {handle : Nat}
    {compute : Entity → Accessor → Except EvalError Value}
    (h : ev.materialize entity v = .ok w) :
    w = .deferred handle compute ↔ ∃ handle' compute', v = .deferred handle' compute' ∧
      compute' entity ev.accessor = .ok (.deferred handle compute) := by
  cases v with
  | deferred handle' compute' =>
    have hcompute : compute' entity ev.accessor = .ok w := h
    constructor
    · rintro rfl
      exact ⟨handle', compute', rfl, hcompute⟩
    · rintro ⟨_, _, heq, hagain⟩
      cases heq
      rw [hcompute] at hagain
      exact Except.ok.inj hagain
  | _ =>
    cases h
    refine ⟨nofun, ?_⟩
    rintro ⟨_, _, heq, -⟩
    cases heq

/-- The prepared value is deferred if the value that was found computed to a deferred one. -/
theorem prepare_settles (hn : ev.normalizers = Normalizer.default)
    (h : ev.prepare entity found = .ok v) :
    v.Realized ∧ (∀ t, v ≠ .dateTime t) ∧
      ∀ handle compute, v = .deferred handle compute ↔
        ∃ handle' compute', found = .deferred handle' compute' ∧
          compute' entity ev.accessor = .ok (.deferred handle compute) := by
  obtain ⟨w, hw, hnormalize⟩ := (prepare_eq_ok_iff hn).1 h
  obtain ⟨hrealized, htimeless, hdeferred⟩ := Value.normalize_default_settles hnormalize
  exact ⟨hrealized, htimeless, fun handle compute =>
    (hdeferred handle compute).trans (materialize_eq_deferred_iff hw)⟩

theorem descend_leaf (h : entity.isLeaf) (v : Value) : ev.descend entity v = pure v := by
  obtain ⟨aliasName, path, identifier, children, modifiers⟩ := entity
  cases children with
  | none => rfl
  | some children => exact if_pos h

/-- A sub-query leaves nothing deferred. -/
theorem material_of_yields_descend (hl : entity.isLeaf = false) (hv : v.Realized)
    (h : (ev.descend entity v).Yields w) : w.Material := by
  obtain ⟨aliasName, path, identifier, children, modifiers⟩ := entity
  cases children with
  | none => cases hl
  | some children =>
    have hne : ¬ children.isEmpty := Bool.eq_false_iff.1 hl
    unfold descend at h
    simp only [if_neg hne] at h
    have hspread : Spread ev.recursion (fun _ r => r.Material) v w :=
      yields_project (fun _ => Selection.material_toValue _) hv h
    exact hspread.material

/-- What one entity stores. -/
theorem settled_of_yields (hn : ev.normalizers = Normalizer.default)
    (h : (ev.evaluate entity found).Yields stored) : ev.Settled entity found stored := by
  rw [evaluate_eq] at h
  obtain ⟨v, hprepare, h⟩ := Eval.yields_bind h
  obtain ⟨w, hdescend, hfinish⟩ := Eval.yields_bind h
  obtain ⟨hrealized, htimeless, hdeferred⟩ :=
    prepare_settles hn (Eval.yields_ofExcept_iff.1 hprepare)
  by_cases hl : entity.isLeaf
  · rw [descend_leaf hl, Eval.yields_pure_iff] at hdescend
    subst hdescend
    have hruns := eq_or_isContainer_of_yields_runModifiers (yields_finish hrealized hfinish)
    rcases hruns with rfl | ⟨hw, hstored⟩
    · refine ⟨hrealized, htimeless, fun handle compute => ?_⟩
      rw [hdeferred]
      exact ⟨fun h => ⟨hl, h⟩, fun h => h.2⟩
    · have hmaterial := hstored.material
      refine ⟨hmaterial.realized, hmaterial.timeless, fun handle compute => ?_⟩
      rw [← hdeferred]
      exact iff_of_false (hmaterial.computed _ _) fun h => hw.material.computed _ _ h.2
  · have hw := material_of_yields_descend (Bool.eq_false_iff.2 hl) hrealized hdescend
    have hmaterial : stored.Material := by
      rcases eq_or_isContainer_of_yields_runModifiers (yields_finish hw.realized hfinish) with
        rfl | ⟨-, hstored⟩
      · exact hw
      · exact hstored.material
    refine ⟨hmaterial.realized, hmaterial.timeless, fun handle compute => ?_⟩
    exact iff_of_false (hmaterial.computed _ _) fun h => hl h.1

/-! ### All entities -/

mutual

/-- The value stored for an entity stands in the relation to what was found, and so do all values
stored in the objects that its sub-query gave, before modifiers took them apart. -/
def Stores (ev : Evaluator) (P : Entity → Value → Value → Prop) : Entity → Value → Value → Prop
  | ⟨aliasName, path, identifier, some (child :: children), modifiers⟩, found, stored =>
    P ⟨aliasName, path, identifier, some (child :: children), modifiers⟩ found stored ∧
    ∃ v projected,
      ev.prepare ⟨aliasName, path, identifier, some (child :: children), modifiers⟩ found = .ok v ∧
      Spread ev.recursion (Single fun w => StoresAll ev P (child :: children) (.value w))
        v projected ∧
      (runModifiers ev.accessor aliasName modifiers projected).Yields stored
  | ⟨aliasName, path, identifier, some [], modifiers⟩, found, stored =>
    P ⟨aliasName, path, identifier, some [], modifiers⟩ found stored
  | ⟨aliasName, path, identifier, none, modifiers⟩, found, stored =>
    P ⟨aliasName, path, identifier, none, modifiers⟩ found stored

/-- The entries have the aliases of the query, in order, and for each of them what was found in the
root and what was stored. -/
def StoresAll (ev : Evaluator) (P : Entity → Value → Value → Prop) :
    List Entity → Root → Entries Value → Prop
  | [], _, entries => entries = []
  | entity :: query, root, entries =>
    ∃ stored others, entries = (entity.aliasName, stored) :: others ∧
      (∃ found, ev.Finds root entity found ∧ Stores ev P entity found stored) ∧
      StoresAll ev P query root others

end

/-- The property is kept from a value to what entities find in it, to what they prepare, and to the
values that these hold. -/
structure Keeps (ev : Evaluator) (I : Value → Prop) : Prop where
  finds : ∀ {v entity found}, I v → ev.Finds (.value v) entity found → I found
  prepare : ∀ {entity found v}, I found → ev.prepare entity found = .ok v → I v
  item : ∀ {items}, I (.array items) → ∀ v ∈ items, I v
  entry : ∀ {entries}, I (.object entries) → ∀ e ∈ entries, I e.2

end Evaluator

/-- A property of the values that are held may be used of what is made of them. -/
theorem Spread.of_keeps {ev : Evaluator} {I : Value → Prop} (hI : ev.Keeps I)
    {single : Value → Value → Prop} {v result : Value} (hv : I v)
    (h : Spread ev.recursion (fun w r => I w → single w r) v result) :
    Spread ev.recursion single v result := by
  cases h with
  | array hitems =>
    have hheld := (List.forall₂_and_left _ _).2 ⟨hI.item hv, hitems⟩
    exact .array (hheld.imp fun _ _ h => h.2 h.1)
  | object hrec hentries =>
    have hheld := (List.forall₂_and_left _ _).2 ⟨hI.entry hv, hentries⟩
    exact .object hrec (hheld.imp fun _ _ h => ⟨h.2.1, h.2.2 h.1⟩)
  | single harray hobject hs => exact .single harray hobject (hs hv)

namespace Evaluator

variable {ev : Evaluator}

/-- What an entity makes of a root, it makes of a value that it finds there. -/
theorem exists_finds_of_yields_answer {root : Root} (hr : root.HasProperties) {entity : Entity}
    {stored : Value} (h : (ev.answer root entity).Yields stored) :
    ∃ found, ev.Finds root entity found ∧ (ev.evaluate entity found).Yields stored := by
  cases root with
  | resolver resolve =>
    obtain ⟨found, hfound, h⟩ := Eval.yields_bind h
    exact ⟨found, Eval.yields_ofExcept_iff.1 hfound, h⟩
  | value v =>
    obtain ⟨found, hfound, h⟩ := Eval.yields_bind h
    cases found with
    | some w => exact ⟨w, hfound, h⟩
    | none =>
      have hscalar := isScalar_of_yields_locate hfound
      rw [hr v rfl] at hscalar
      cases hscalar

/-- A query selects nothing of a scalar, unless it is empty, and otherwise what its entities make of
what they find. -/
theorem entries_of_yields_apply {query : Query} {root : Root} {s : Selection}
    (h : (ev.apply query root).Yields s) :
    (s = none ∧ query ≠ [] ∧ ∃ v, root = .value v ∧ v.isScalar) ∨
      ∃ entries, s = some entries ∧ (query = [] ∨ root.HasProperties) ∧
        List.Forall₂ (fun entity entry => entry.1 = entity.aliasName ∧
          ∃ found, ev.Finds root entity found ∧ (ev.evaluate entity found).Yields entry.2)
          query entries := by
  by_cases hr : root.HasProperties
  · rw [apply_eq_forEach hr] at h
    obtain ⟨entries, hentries, rfl⟩ := Eval.yields_map h
    refine .inr ⟨entries, rfl, .inr hr, ?_⟩
    refine (Eval.forall₂_of_yields_forEach hentries).imp fun entity entry he => ?_
    obtain ⟨stored, hstored, rfl⟩ := Eval.yields_map he
    exact ⟨rfl, exists_finds_of_yields_answer hr hstored⟩
  · obtain ⟨v, rfl, hv⟩ : ∃ v, root = .value v ∧ v.isScalar = true := by
      unfold Root.HasProperties at hr
      push Not at hr
      simpa using hr
    cases query with
    | nil =>
      have hs : s = some [] := Eval.yields_pure_iff.1 h
      exact .inr ⟨[], hs, .inl rfl, .nil⟩
    | cons entity query =>
      obtain ⟨g, hg⟩ := h
      have hselect : (ev.select (entity :: query) v g).result = .ok s := hg
      rw [select_scalar hv] at hselect
      exact .inl ⟨(Except.ok.inj hselect).symm, List.cons_ne_nil _ _, v, rfl, hv⟩

section

variable {I : Value → Prop} {P : Entity → Value → Value → Prop}

/-- The relation holds of all that an entity stores of a value with the property. -/
def Ensures (ev : Evaluator) (I : Value → Prop) (P : Entity → Value → Value → Prop) : Prop :=
  ∀ {entity found stored}, I found → (ev.evaluate entity found).Yields stored →
    P entity found stored

mutual

/-- What holds of each entity holds of an entity and all below it. -/
theorem stores_of_yields (hn : ev.normalizers = Normalizer.default) (hI : ev.Keeps I)
    (hP : ev.Ensures I P) : ∀ (entity : Entity) {found stored : Value}, I found →
    (ev.evaluate entity found).Yields stored → ev.Stores P entity found stored
  | ⟨_, _, _, none, _⟩, _, _, hfound, h => by
    rw [Stores]
    exact hP hfound h
  | ⟨_, _, _, some [], _⟩, _, _, hfound, h => by
    rw [Stores]
    exact hP hfound h
  | ⟨aliasName, path, identifier, some (child :: children), modifiers⟩, found, stored, hfound,
      h => by
    have hstored := hP hfound h
    rw [evaluate] at h
    obtain ⟨v, hv, h⟩ := Eval.yields_bind h
    obtain ⟨projected, hprojected, h⟩ := Eval.yields_bind h
    rw [Eval.yields_ofExcept_iff] at hv
    have hsingle : ∀ {w s}, (ev.select (child :: children) w).Yields s → I w →
        Single (fun w => ev.StoresAll P (child :: children) (.value w)) w s.toValue := by
      intro w s hs hw
      have happly : (ev.apply (child :: children) (.value w)).Yields s := hs
      obtain ⟨rfl, -, _, ⟨rfl⟩, hscalar⟩ | ⟨entries, rfl, hr, hentries⟩ :=
        entries_of_yields_apply happly
      · exact .scalar hscalar
      · have hproperties := hr.resolve_left (List.cons_ne_nil _ _)
        refine .object (hproperties w rfl) (storesAll_of_forall₂ hn hI hP (child :: children) ?_)
        exact hentries.imp fun _ _ ⟨hkey, found, hfound, hyields⟩ =>
          ⟨hkey, found, hI.finds hw hfound, hfound, hyields⟩
    have hrealized := realized_of_prepare hn hv
    have hspread := Spread.of_keeps hI (hI.prepare hfound hv)
      (yields_project (fun hs => hsingle hs) hrealized hprojected)
    rw [Stores]
    exact ⟨hstored, v, projected, hv, hspread, yields_finish hspread.realized h⟩

theorem storesAll_of_forall₂ (hn : ev.normalizers = Normalizer.default) (hI : ev.Keeps I)
    (hP : ev.Ensures I P) : ∀ (query : List Entity) {root : Root} {entries : Entries Value},
    List.Forall₂ (fun entity entry => entry.1 = entity.aliasName ∧ ∃ found, I found ∧
      ev.Finds root entity found ∧ (ev.evaluate entity found).Yields entry.2) query entries →
    ev.StoresAll P query root entries
  | [], _, _, h => by
    rw [StoresAll]
    exact List.forall₂_nil_left_iff.1 h
  | entity :: query, _, _, h => by
    obtain ⟨⟨key, stored⟩, others, ⟨rfl, found, hfound, hfinds, hyields⟩, hothers, rfl⟩ :=
      List.forall₂_cons_left_iff.1 h
    rw [StoresAll]
    exact ⟨stored, others, rfl, ⟨found, hfinds, stores_of_yields hn hI hP entity hfound hyields⟩,
      storesAll_of_forall₂ hn hI hP query hothers⟩

end

/-- What holds of each entity holds of all that a query stores. -/
theorem yields_storesAll (hn : ev.normalizers = Normalizer.default) (hI : ev.Keeps I)
    (hP : ev.Ensures I P) {query : Query} {root : Root} {entries : Entries Value}
    (hroot : ∀ {entity found}, ev.Finds root entity found → I found)
    (h : (ev.apply query root).Yields (some entries)) : ev.StoresAll P query root entries := by
  obtain ⟨hnone, -⟩ | ⟨_, ⟨rfl⟩, -, hentries⟩ := entries_of_yields_apply h
  · cases hnone
  · refine storesAll_of_forall₂ hn hI hP query ?_
    exact hentries.imp fun _ _ ⟨hkey, found, hfinds, hyields⟩ =>
      ⟨hkey, found, hroot hfinds, hfinds, hyields⟩

end

end Evaluator

/-! ### Data without deferred values that compute to others -/

/-- No deferred value within this one, or within what those compute, computes to a deferred one. -/
inductive Value.Shallow : Value → Prop
  | scalar {v : Value} : v.isScalar → Shallow v
  | array {items : List Value} : (∀ v ∈ items, v.Shallow) → Shallow (.array items)
  | object {entries : Entries Value} : (∀ e ∈ entries, e.2.Shallow) → Shallow (.object entries)
  | record {handle : Nat} {type : String} {attributes : Entries Value} :
    (∀ e ∈ attributes, e.2.Shallow) → Shallow (.record handle type attributes)
  | deferred {handle : Nat} {compute : Entity → Accessor → Except EvalError Value} :
    (∀ entity accessor v, compute entity accessor = .ok v →
      ∀ handle' compute', v ≠ .deferred handle' compute') →
    (∀ entity accessor v, compute entity accessor = .ok v → v.Shallow) →
    Shallow (.deferred handle compute)
  | collection {handle : Nat} {outcome : Except EvalError (List Value)} :
    (∀ items, outcome = .ok items → ∀ v ∈ items, v.Shallow) → Shallow (.collection handle outcome)

/-- Nor does one within what a resolver gives. -/
def Root.Shallow : Root → Prop
  | .value v => v.Shallow
  | .resolver resolve => ∀ path entity v, resolve path entity = .ok v → v.Shallow

namespace Value.Shallow

variable {v w : Value}

theorem of_item? {items : List Value} (h : ∀ v ∈ items, v.Shallow) {segment : Segment}
    (hw : item? items segment = some w) : w.Shallow := by
  obtain ⟨position, -, hw⟩ := Option.bind_eq_some_iff.1 hw
  exact h w (List.mem_of_getElem? hw)

/-- What is read from such a value is such a value. -/
theorem of_read (h : v.Shallow) {segment : Segment} (hw : v.read segment = .ok (some w)) :
    w.Shallow := by
  cases h with
  | scalar hs =>
    rw [read_scalar hs] at hw
    cases hw
  | array hitems => exact of_item? hitems (Except.ok.inj hw)
  | object hentries => exact hentries _ (Entries.mem_of_get? (Except.ok.inj hw))
  | record hattributes => exact hattributes _ (Entries.mem_of_get? (Except.ok.inj hw))
  | deferred => cases hw
  | @collection handle outcome hitems =>
    cases outcome with
    | error e => cases hw
    | ok items => exact of_item? (hitems items rfl) (Except.ok.inj hw)

theorem of_follow (h : v.Shallow) {segments : List Segment}
    (hw : v.follow segments = .ok (some w)) : w.Shallow := by
  induction segments generalizing v with
  | nil =>
    cases hw
    exact h
  | cons segment segments ih =>
    rw [follow] at hw
    split at hw
    · cases hw
    · cases hw
    · next u hu => exact ih (h.of_read hu) hw

variable {accessor : Accessor} {path : String}

theorem of_missing (hw : accessor.missing path = .ok w) : w.Shallow := by
  unfold Accessor.missing at hw
  split at hw
  · cases hw
  · cases hw
    exact .scalar rfl

theorem of_getValue (h : v.Shallow) (hw : accessor.getValue v path = .ok w) : w.Shallow := by
  unfold Accessor.getValue at hw
  split at hw
  · cases hw
  · split at hw
    · cases hw
    · next hfollow =>
      cases hw
      exact h.of_follow hfollow
    · exact of_missing hw

theorem of_getKey (h : v.Shallow) (hw : accessor.getKey v path = .ok w) : w.Shallow := by
  unfold Accessor.getKey at hw
  split at hw
  · cases hw
  · next hread =>
    cases hw
    exact h.of_read hread
  · split at hw
    · exact h.of_getValue hw
    · exact of_missing hw

theorem of_materialize {ev : Evaluator} {entity : Entity} (h : v.Shallow)
    (hw : ev.materialize entity v = .ok w) : w.Shallow := by
  cases v with
  | deferred handle compute =>
    cases h with
    | deferred _ hshallow => exact hshallow _ _ _ hw
    | scalar hs => cases hs
  | _ =>
    cases hw
    exact h

theorem of_normalize_default (h : v.Shallow) (hw : normalize Normalizer.default v = .ok w) :
    w.Shallow := by
  cases v with
  | collection handle outcome =>
    cases outcome with
    | error e => cases hw
    | ok items =>
      cases hw
      cases h with
      | collection hitems => exact .array (hitems items rfl)
      | scalar hs => cases hs
  | dateTime t =>
    cases hw
    exact .scalar rfl
  | _ =>
    cases hw
    exact h

end Value.Shallow

namespace Evaluator

variable {ev : Evaluator}

/-- Evaluating keeps to such values. -/
theorem keeps_shallow (hn : ev.normalizers = Normalizer.default) : ev.Keeps Value.Shallow where
  finds {v entity found} hv hfound := by
    have hsome : ∀ {x : Except EvalError Value}, (some <$> Eval.ofExcept x).Yields (some found) →
        x = .ok found := by
      intro x hx
      obtain ⟨w, hw, heq⟩ := Eval.yields_map hx
      cases heq
      exact Eval.yields_ofExcept_iff.1 hw
    cases hv with
    | scalar hs =>
      have hscalar := isScalar_of_yields_locate hfound
      rw [hs] at hscalar
      cases hscalar
    | array hitems => exact (Value.Shallow.array hitems).of_getKey (hsome hfound)
    | object hentries => exact (Value.Shallow.object hentries).of_getKey (hsome hfound)
    | record hattributes => exact (Value.Shallow.record hattributes).of_getValue (hsome hfound)
    | deferred _ hshallow => exact hshallow _ _ _ (hsome hfound)
    | @collection handle outcome hitems =>
      cases outcome with
      | error e => cases hsome hfound
      | ok items => exact (Value.Shallow.array (hitems items rfl)).of_getKey (hsome hfound)
  prepare {entity found v} hfound hv := by
    obtain ⟨w, hw, hnormalize⟩ := (prepare_eq_ok_iff hn).1 hv
    exact (hfound.of_materialize hw).of_normalize_default hnormalize
  item hitems := by
    cases hitems with
    | array hitems => exact hitems
    | scalar hs => cases hs
  entry hentries := by
    cases hentries with
    | object hentries => exact hentries
    | scalar hs => cases hs

/-- Of such a value nothing deferred is stored. -/
theorem material_of_shallow (hn : ev.normalizers = Normalizer.default) :
    ev.Ensures Value.Shallow fun _ _ stored => stored.Material := by
  intro entity found stored hfound h
  have hsettled := settled_of_yields hn h
  refine ⟨hsettled.realized, hsettled.timeless, fun handle compute hstored => ?_⟩
  obtain ⟨-, handle', compute', rfl, hcompute⟩ := (hsettled.deferred_iff handle compute).1 hstored
  cases hfound with
  | deferred hcomputes _ => exact hcomputes _ _ _ hcompute handle compute rfl
  | scalar hs => cases hs

end Evaluator

/-- **What is stored is computed, once.** Whenever a query gives a result, at every depth of it, the
value stored for an entity is no collection and no point in time, and it is deferred exactly if the
entity has no sub-query and found a deferred value that computed to that one. So it is never
deferred if no deferred value of the root, or within what they compute, computes to another. -/
theorem apply_stores (accessor : Accessor) (recursion : ObjectRecursion) (query : Query)
    (root : Root) (g : Generator) {entries : Entries Value} :
    let ev : Evaluator := { accessor, recursion }
    (ev.apply query root g).result = .ok (some entries) →
      ev.StoresAll ev.Settled query root entries ∧
        (root.Shallow → ev.StoresAll (fun _ _ stored => stored.Material) query root entries) := by
  intro ev h
  have hn : ev.normalizers = Normalizer.default := rfl
  have hyields : (ev.apply query root).Yields (some entries) := ⟨g, h⟩
  have hall : ev.Keeps fun _ => True :=
    ⟨fun _ _ => trivial, fun _ _ => trivial, fun _ _ _ => trivial, fun _ _ _ => trivial⟩
  refine ⟨Evaluator.yields_storesAll hn hall (fun _ => Evaluator.settled_of_yields hn)
    (fun _ => trivial) hyields, fun hroot => ?_⟩
  refine Evaluator.yields_storesAll hn (Evaluator.keeps_shallow hn)
    (Evaluator.material_of_shallow hn) (fun {entity found} hfinds => ?_) hyields
  cases root with
  | value v => exact (Evaluator.keeps_shallow hn).finds hroot hfinds
  | resolver resolve => exact hroot _ _ _ hfinds

/-- What a deferred value computes to is stored, be it deferred again; a date that it computes to is
stored as its text. -/
theorem apply_stores_deferred :
    let inner : Value := .deferred 1 fun _ _ => .ok (.integer 1)
    let twice : Root := .value (.object [("a", .deferred 0 fun _ _ => .ok inner)])
    let once : Root := .value (.object [("a", .deferred 0 fun _ _ => .ok (.dateTime ⟨0, 0, 0⟩))])
    let query : Query := [.ofPath "a"]
    let text : Entries Value := [("a", .string "1970-01-01T00:00:00+00:00")]
    let ev : Evaluator := { accessor := {}, recursion := .elementWise }
    (ev.apply query twice ⟨0⟩).result = .ok (some [("a", inner)]) ∧
      ev.StoresAll ev.Settled query twice [("a", inner)] ∧
      once.Shallow ∧ (ev.apply query once ⟨0⟩).result = .ok (some text) ∧
      ev.StoresAll (fun _ _ stored => stored.Material) query once text := by
  intro inner twice once query text ev
  have htwice : (ev.apply query twice ⟨0⟩).result = .ok (some [("a", inner)]) := rfl
  have honce : (ev.apply query once ⟨0⟩).result = .ok (some text) := by cbv
  have hdate : Value.Shallow (.deferred 0 fun _ _ => .ok (.dateTime ⟨0, 0, 0⟩)) := by
    refine .deferred (fun _ _ v hv => ?_) fun _ _ v hv => ?_
    · cases hv
      intro handle compute h
      cases h
    · cases hv
      exact .scalar rfl
  have hshallow : once.Shallow := .object (List.forall_mem_singleton.2 hdate)
  exact ⟨htwice, (apply_stores {} .elementWise query twice ⟨0⟩ htwice).1, hshallow, honce,
    (apply_stores {} .elementWise query once ⟨0⟩ honce).2 hshallow⟩

/-- A deferred value is stored, and the JSON of the result has `null` in place of the number that it
would compute to. -/
theorem exists_stored_deferred :
    let inner : Value := .deferred 1 fun _ _ => .ok (.integer 1)
    let root : Root := .value (.object [("a", .deferred 0 fun _ _ => .ok inner)])
    ∃ query, parse "a" = .ok query ∧
      (Evaluator.apply {} query root ⟨0⟩).result = .ok (some [("a", inner)]) ∧
      Selection.toJson (some [("a", inner)]) = .ok (.object [("a", .null)]) := by
  intro inner root
  have hparse : parse "a" = .ok [.ofPath "a"] := by cbv
  exact ⟨_, hparse, rfl, rfl⟩

end NestedQuery
