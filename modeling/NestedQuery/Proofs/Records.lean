/-
# Objects read as records

An object is read by keys, and a key is tried as it is before it is taken for
a path; a record is read by paths only, which are always taken apart. Both
ways find the same, or miss the same property, unless a path with a point in
it is itself a key (`Accessor.getKey_object_eq_getValue_record`). So a query
whose paths are no such keys selects from an object what it selects from the
record with these attributes; and where a sub-query takes an object for a
record, an entity makes the same of both.

Key definitions: `Query.AvoidsDottedKeys`, `Evaluator.LeavesKeyed`.
Key theorems: `Accessor.getKey_object_eq_getValue_record`,
`Evaluator.select_object`, `apply_object_eq_apply_record`.
-/
import Mathlib.Data.List.Permutation
import NestedQuery.Proofs.PropertyPath
import NestedQuery.Proofs.Render.RoundTrip
import NestedQuery.Proofs.Shape

namespace NestedQuery

/-- No path of the query that has a point in it is a key of the entries. -/
def Query.AvoidsDottedKeys (query : Query) (entries : Entries Value) : Prop :=
  ∀ entity ∈ query, '.' ∈ entity.path.toList → entity.path ∉ entries.keys

instance (query : Query) (entries : Entries Value) : Decidable (query.AvoidsDottedKeys entries) :=
  inferInstanceAs (Decidable (∀ entity ∈ query, _ → _))

variable {attributes : Entries Value}

/-! ### Reading -/

/-- The key of an object and the path of a record give the same value, or miss the same property. -/
theorem Accessor.getKey_object_eq_getValue_record (accessor : Accessor) {path : String}
    (hpath : IsPath path) (hk : '.' ∈ path.toList → path ∉ attributes.keys) (handle : Nat)
    (type : String) :
    accessor.getKey (.object attributes) path =
      accessor.getValue (.record handle type attributes) path := by
  have hread : (Value.object attributes).read (.field path) =
      .ok (Entries.get? attributes path) := rfl
  rw [getKey, hread]
  by_cases hp : '.' ∈ path.toList
  · -- the path is no key, so it is taken apart here as well
    have hnone : Entries.get? attributes path = none := by
      rw [Option.eq_none_iff_forall_not_mem]
      intro v hv
      exact hk hp (List.mem_map.2 ⟨(path, v), Entries.mem_of_get? hv, rfl⟩)
    have hpoint : (path.toList.any fun c => c = '.' ∨ c = '[') = true :=
      List.any_eq_true.2 ⟨'.', hp, by simp⟩
    have hsame : ∀ segment, (Value.object attributes).read segment =
        (Value.record handle type attributes).read segment := fun _ => rfl
    rw [hnone]
    dsimp only
    rw [if_pos hpoint, accessor.getValue_congr hsame]
  · -- the path is one name, which is all that is read of the record
    have hplain : ¬ (path.toList.any fun c => c = '.' ∨ c = '[') = true := by
      rw [List.any_eq_true]
      rintro ⟨c, hc, hsign⟩
      rcases isBare_of_mem_path hpath hc with rfl | hbare
      · exact hp hc
      · obtain rfl | rfl : c = '.' ∨ c = '[' := by simpa using hsign
        · exact hp hc
        · exact absurd hbare (by decide)
    have hread' : (Value.record handle type attributes).read (.field path) =
        .ok (Entries.get? attributes path) := rfl
    rw [if_neg hplain, getValue, parsePath_of_isPath_of_not_mem hpath hp]
    dsimp only
    rw [Value.follow, hread']
    cases Entries.get? attributes path <;> rfl

/-! ### Selecting and evaluating -/

namespace Evaluator

variable (ev : Evaluator) {query : Query}

/-- An entity finds the same in an object and in the record with its entries as attributes. -/
theorem locate_object {entity : Entity} (hpath : IsPath entity.path)
    (hk : '.' ∈ entity.path.toList → entity.path ∉ attributes.keys) (handle : Nat)
    (type : String) :
    ev.locate (.object attributes) entity = ev.locate (.record handle type attributes) entity := by
  unfold locate
  dsimp only
  rw [ev.accessor.getKey_object_eq_getValue_record hpath hk handle type]

/-- A query whose dotted paths are no keys selects the same from both. -/
theorem select_object (hp : ∀ entity ∈ query, IsPath entity.path)
    (hk : query.AvoidsDottedKeys attributes) (handle : Nat) (type : String) :
    ev.select query (.object attributes) = ev.select query (.record handle type attributes) :=
  ev.select_congr fun entity he => ev.locate_object (hp entity he) (hk entity he) handle type

/-- Normalizing changes neither the object of these entries nor a record with these attributes. -/
def LeavesKeyed (attributes : Entries Value) : Prop :=
  normalize ev.normalizers (.object attributes) = .ok (.object attributes) ∧
    ∀ handle type, normalize ev.normalizers (.record handle type attributes) =
      .ok (.record handle type attributes)

variable {ev}

/-- What no step changes is not changed. -/
theorem normalize_eq_self {steps : List Normalizer} {v : Value}
    (h : ∀ step ∈ steps, step v = .ok v) : normalize steps v = .ok v := by
  induction steps with
  | nil => rfl
  | cons step steps ih =>
    obtain ⟨hstep, hsteps⟩ := List.forall_mem_cons.1 h
    rw [normalize, hstep]
    exact ih hsteps

theorem leavesKeyed_of_mem_default (h : ∀ step ∈ ev.normalizers, step ∈ Normalizer.default) :
    ev.LeavesKeyed attributes := by
  constructor
  · refine normalize_eq_self fun step hs => ?_
    rcases List.mem_pair.1 (h step hs) with rfl | rfl <;> rfl
  · intro handle type
    refine normalize_eq_self fun step hs => ?_
    rcases List.mem_pair.1 (h step hs) with rfl | rfl <;> rfl

/-- If objects are taken for records, an entity makes the same of both by way of its sub-query. -/
theorem evaluate_object_eq_evaluate_record {entity : Entity} (hc : entity.children = some query)
    (hne : query ≠ []) (hd : ev.recursion = .direct) (hn : ev.LeavesKeyed attributes) {handle : Nat}
    {type : String}
    (hs : ev.select query (.object attributes) = ev.select query (.record handle type attributes)) :
    ev.evaluate entity (.object attributes) =
      ev.evaluate entity (.record handle type attributes) := by
  have hobject : ev.descend entity (.object attributes) =
      Selection.toValue <$> ev.select query (.object attributes) := by
    simp [descend, hc, hne, project, hd]
  have hrecord : ev.descend entity (.record handle type attributes) =
      Selection.toValue <$> ev.select query (.record handle type attributes) := by
    simp [descend, hc, hne, project]
  have hprepare : ev.prepare entity (.object attributes) = .ok (.object attributes) := hn.1
  have hprepare' : ev.prepare entity (.record handle type attributes) =
      .ok (.record handle type attributes) := hn.2 handle type
  rw [ev.evaluate_of_prepare hprepare, ev.evaluate_of_prepare hprepare', hobject, hrecord, hs]

end Evaluator

/-- **Objects read as records.** If no dotted path of a parsed query is a key of the entries,
applying the query to the object of these entries is applying it to a record with these attributes:
the same values or the same failure, the same reports, and the same state of the generator. So an
entity with this sub-query makes the same of both where objects are taken for records, since none
of the default normalizers changes either. -/
theorem apply_object_eq_apply_record {text : String} {query : Query} (hp : parse text = .ok query)
    (hk : query.AvoidsDottedKeys attributes) (ev : Evaluator) (handle : Nat) (type : String) :
    ev.apply query (.value (.object attributes)) =
        ev.apply query (.value (.record handle type attributes)) ∧
      (ev.recursion = .direct → ev.LeavesKeyed attributes → query ≠ [] →
        ∀ entity : Entity, entity.children = some query →
          ev.evaluate entity (.object attributes) =
            ev.evaluate entity (.record handle type attributes)) ∧
      ((∀ step ∈ ev.normalizers, step ∈ Normalizer.default) → ev.LeavesKeyed attributes) := by
  have hw : query.WellFormed := wellFormed_of_parse hp
  have hpaths : ∀ entity ∈ query, IsPath entity.path :=
    fun entity he => ((Query.forall_preorder_of_mem hw.2 he).1).1.1
  have hselect := ev.select_object hpaths hk handle type
  refine ⟨hselect, fun hd hn hne entity hc => ?_, Evaluator.leavesKeyed_of_mem_default⟩
  exact Evaluator.evaluate_object_eq_evaluate_record hc hne hd hn hselect

/-- A dotted path whose beginning is a key, and one that is missing: a strict accessor misses the
same property in the record as in the object. -/
theorem apply_object_eq_apply_record_missing :
    let attributes : Entries Value := [("a", .object [("b", .integer 1)]), ("c.d", .null)]
    let first : Entity := ⟨"a.b", "a.b", none, none, []⟩
    let second : Entity := ⟨"c", "c.e", none, none, []⟩
    let nested : Entity := ⟨"x", "x", none, some [first, second], []⟩
    let lenient : Evaluator := { recursion := .direct }
    let strict : Evaluator := { accessor := ⟨true⟩, recursion := .direct }
    parse "a.b,c.e as c" = .ok [first, second] ∧
      Query.AvoidsDottedKeys [first, second] attributes ∧
      (lenient.apply [first, second] (.value (.record 0 "R" attributes)) ⟨0⟩).result =
        .ok (some [("a.b", .integer 1), ("c", .null)]) ∧
      (strict.apply [first, second] (.value (.record 0 "R" attributes)) ⟨0⟩).result =
        .error (.noSuchProperty "c.e") ∧
      (lenient.evaluate nested (.record 0 "R" attributes) ⟨0⟩).result =
        .ok (.object [("a.b", .integer 1), ("c", .null)]) := by
  intro attributes first second nested lenient strict
  have hp : parse "a.b,c.e as c" = .ok [first, second] := by
    set_option maxRecDepth 2000 in cbv
  have hk : Query.AvoidsDottedKeys [first, second] attributes := by decide
  have hlenient := apply_object_eq_apply_record hp hk lenient 0 "R"
  have hstrict := apply_object_eq_apply_record hp hk strict 0 "R"
  have hnested := hlenient.2.1 rfl (hlenient.2.2 fun _ hs => hs) (List.cons_ne_nil _ _) nested rfl
  refine ⟨hp, hk, ?_, ?_, ?_⟩
  · rw [← hlenient.1]
    set_option maxRecDepth 2000 in cbv
  · rw [← hstrict.1]
    set_option maxRecDepth 2000 in cbv
  · rw [← hnested]
    set_option maxRecDepth 2000 in cbv

end NestedQuery
