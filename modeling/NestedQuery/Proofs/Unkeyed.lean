/-
# Objects and the lists of their values

Where sub-queries are applied to each value of an object, an object and the
array of its values go through an entity in lock step. Forgetting the keys
commutes with every step behind the preparation, so one run is the other one
with the keys forgotten: it reports the same, draws the same words, and fails
with the same error.

Sorting and shuffling forget the keys themselves. If no modifier does, the
object keeps them, and the limits cut keys and values alike.

Key definitions: `Value.unkey`, `Modifier.reorders`, `slices`, `Value.Wraps`.
Key theorems: `runModifiers_unkey`, `Evaluator.evaluate_unkey`,
`runModifiers_wrap`, `array_of_yields_runModifiers`,
`Evaluator.evaluate_object`, `evaluate_object_values`.
-/
import NestedQuery.Proofs.Runs
import NestedQuery.Proofs.Shape

namespace NestedQuery

/-! ### Loops over mapped items -/

namespace Eval

variable {α β γ : Type}

theorem forEach_map (f : β → Eval γ) (k : α → β) (xs : List α) :
    forEach f (xs.map k) = forEach (fun x => f (k x)) xs := by
  induction xs with
  | nil => rfl
  | cons x xs ih => simp only [List.map_cons, forEach, ih]

theorem map_forEach (k : β → γ) (f : α → Eval β) (xs : List α) :
    List.map k <$> forEach f xs = forEach (fun x => k <$> f x) xs := by
  induction xs with
  | nil => rfl
  | cons x xs ih =>
    rw [forEach, forEach, ← ih]
    simp only [map_eq_pure_bind, bind_assoc, pure_bind, List.map_cons]

theorem map_ofExcept (f : α → β) (x : Except EvalError α) :
    f <$> ofExcept x = ofExcept (x.map f) := by
  funext g
  rw [map_apply]
  rfl

end Eval

/-! ### Forgetting the keys -/

/-- An object becomes the array of its values; any other value stays as it is. -/
def Value.unkey : Value → Value
  | .object entries => .array (entries.map Prod.snd)
  | v => v

@[simp] theorem Value.unkey_array (items : List Value) : (array items).unkey = array items := rfl

@[simp] theorem Value.unkey_object (entries : Entries Value) :
    (object entries).unkey = array (entries.map Prod.snd) := rfl

theorem Value.sequence_unkey (modifier : String) (v : Value) :
    v.unkey.sequence modifier = v.sequence modifier := by
  cases v <;> rfl

theorem Value.slice_unkey (offset : Nat) (count : Option Nat) (v : Value) :
    v.unkey.slice offset count = (v.slice offset count).map Value.unkey := by
  cases v with
  | object entries =>
    show Except.ok (Value.array _) = Except.ok (Value.array _)
    rw [slice_map]
  | _ => rfl

theorem Value.realize_unkey (v : Value) : v.unkey.realize = v.realize.map Value.unkey := by
  cases v with
  | collection handle outcome => cases outcome <;> rfl
  | _ => rfl

/-- A modifier does the same without the keys. -/
theorem runModifier_unkey (accessor : Accessor) (aliasName : String) (modifier : Modifier)
    (v : Value) :
    runModifier accessor aliasName modifier v.unkey =
      Value.unkey <$> runModifier accessor aliasName modifier v := by
  cases modifier with
  | randomize =>
    simp only [runModifier, v.sequence_unkey, map_eq_pure_bind, bind_assoc, pure_bind,
      Value.unkey_array]
  | sort terms =>
    simp only [runModifier, v.sequence_unkey, map_eq_pure_bind, bind_assoc, pure_bind,
      Value.unkey_array]
  | limit offset count =>
    show Eval.ofExcept _ = Value.unkey <$> Eval.ofExcept _
    rw [v.slice_unkey, Eval.map_ofExcept]
  | generic keyword payload =>
    simp only [runModifier, map_eq_pure_bind, bind_assoc, pure_bind]

theorem runModifiers_unkey (accessor : Accessor) (aliasName : String) (modifiers : List Modifier)
    (v : Value) :
    runModifiers accessor aliasName modifiers v.unkey =
      Value.unkey <$> runModifiers accessor aliasName modifiers v := by
  induction modifiers generalizing v with
  | nil => rfl
  | cons modifier modifiers ih =>
    simp only [runModifiers, runModifier_unkey, ih, map_eq_pure_bind, bind_assoc, pure_bind]

namespace Evaluator

variable {ev : Evaluator} {entity : Entity} {entries : Entries Value}

theorem finish_unkey (v : Value) : ev.finish entity v.unkey = Value.unkey <$> ev.finish entity v := by
  unfold finish
  rw [v.realize_unkey, ← Eval.map_ofExcept]
  simp only [runModifiers_unkey, map_eq_pure_bind, bind_assoc, pure_bind]

/-- A sub-query is applied to the values of an object as it is to the items of an array. -/
theorem project_unkey (hr : ev.recursion = .elementWise) (subQuery : Value → Eval Selection) :
    ev.project subQuery (Value.unkey (.object entries)) =
      Value.unkey <$> ev.project subQuery (.object entries) := by
  have harray : ∀ x : Eval (List (String × Value)), Value.unkey <$> Value.object <$> x =
      Value.array <$> List.map Prod.snd <$> x := by
    intro x
    simp only [map_eq_pure_bind, bind_assoc, pure_bind, Value.unkey_object]
  simp only [project, hr, harray, Eval.map_forEach, Value.unkey_object, Eval.forEach_map]
  simp only [map_eq_pure_bind, bind_assoc, pure_bind]

theorem descend_unkey (hr : ev.recursion = .elementWise) :
    ev.descend entity (Value.unkey (.object entries)) =
      Value.unkey <$> ev.descend entity (.object entries) := by
  unfold descend
  cases entity.children with
  | none => rfl
  | some query =>
    dsimp only
    split
    · rfl
    · exact project_unkey hr _

theorem prepare_object (hn : ev.normalizers = Normalizer.default) (entity : Entity) :
    ev.prepare entity (.object entries) = .ok (.object entries) := by
  unfold prepare
  rw [hn]
  rfl

/-- So an entity makes the same of the values of an object, up to the keys. -/
theorem evaluate_unkey (hn : ev.normalizers = Normalizer.default)
    (hr : ev.recursion = .elementWise) :
    ev.evaluate entity (.array (entries.map Prod.snd)) =
      Value.unkey <$> ev.evaluate entity (.object entries) := by
  have harray : ev.prepare entity (.array (entries.map Prod.snd)) =
      .ok (Value.unkey (.object entries)) := by
    unfold prepare
    rw [hn]
    rfl
  rw [evaluate_of_prepare ev (prepare_object hn entity), evaluate_of_prepare ev harray,
    descend_unkey hr]
  simp only [map_eq_pure_bind, bind_assoc, pure_bind]
  congr 1
  funext v
  rw [finish_unkey, map_eq_pure_bind]

end Evaluator

/-! ### Keeping the keys -/

/-- Whether the modifier puts items in an order of its own. -/
def Modifier.reorders : Modifier → Bool
  | sort _ | randomize => true
  | limit _ _ | generic _ _ => false

/-- What the limits among modifiers leave of a list, one after the other. -/
def slices {α : Type} : List Modifier → List α → List α
  | [], items => items
  | .limit offset count :: modifiers, items => slices modifiers (slice offset count items)
  | _ :: modifiers, items => slices modifiers items

theorem slices_map {α β : Type} (f : α → β) (modifiers : List Modifier) (items : List α) :
    slices modifiers (items.map f) = (slices modifiers items).map f := by
  induction modifiers generalizing items with
  | nil => rfl
  | cons modifier modifiers ih =>
    cases modifier with
    | limit offset count => simp only [slices, slice_map, ih]
    | _ => exact ih items

/-- A value made of a list: an array of its items, or an object of its entries. -/
inductive Value.Wraps : {α : Type} → (List α → Value) → Prop
  | array : Wraps Value.array
  | object : Wraps Value.object

/-- Without such a modifier only the limits change what is in an array or object. -/
theorem runModifiers_wrap (accessor : Accessor) (aliasName : String) {modifiers : List Modifier}
    (hm : ∀ m ∈ modifiers, m.reorders = false) {α : Type} {wrap : List α → Value}
    (hwrap : Value.Wraps wrap) (items : List α) (g : Generator) :
    (runModifiers accessor aliasName modifiers (wrap items) g).result =
      .ok (wrap (slices modifiers items)) := by
  induction modifiers generalizing items g with
  | nil => rfl
  | cons modifier modifiers ih =>
    obtain ⟨hmodifier, hothers⟩ := List.forall_mem_cons.1 hm
    cases modifier with
    | sort terms => cases hmodifier
    | randomize => cases hmodifier
    | limit offset count =>
      have hslice : (wrap items).slice offset count = .ok (wrap (slice offset count items)) := by
        cases hwrap <;> rfl
      have hlimit : runModifier accessor aliasName (.limit offset count) (wrap items) g =
          ⟨.ok (wrap (slice offset count items)), [], g⟩ := by
        rw [runModifier, hslice]
        rfl
      rw [runModifiers, Eval.ok_bind hlimit]
      exact ih hothers (slice offset count items) g
    | generic keyword payload => exact ih hothers items g

/-- So an object stays one. -/
theorem runModifiers_object (accessor : Accessor) (aliasName : String) {modifiers : List Modifier}
    (hm : ∀ m ∈ modifiers, m.reorders = false) (entries : Entries Value) (g : Generator) :
    (runModifiers accessor aliasName modifiers (.object entries) g).result =
      .ok (.object (slices modifiers entries)) :=
  runModifiers_wrap accessor aliasName hm .object entries g

/-- An array stays an array. -/
theorem array_of_yields_runModifier {accessor : Accessor} {aliasName : String} {m : Modifier}
    {v w : Value} (hv : m.reorders ∨ ∃ items, v = .array items)
    (h : (runModifier accessor aliasName m v).Yields w) : ∃ items, w = .array items := by
  cases m with
  | randomize =>
    obtain ⟨items, -, h⟩ := Eval.yields_bind h
    obtain ⟨shuffled, -, h⟩ := Eval.yields_bind h
    obtain ⟨-, -, h⟩ := Eval.yields_bind h
    exact ⟨shuffled, Eval.yields_pure_iff.1 h⟩
  | sort terms =>
    obtain ⟨items, -, h⟩ := Eval.yields_bind h
    obtain ⟨-, -, h⟩ := Eval.yields_bind h
    obtain ⟨sorted, -, h⟩ := Eval.yields_bind h
    obtain ⟨-, -, h⟩ := Eval.yields_bind h
    exact ⟨sorted, Eval.yields_pure_iff.1 h⟩
  | limit offset count =>
    obtain ⟨items, rfl⟩ := hv.resolve_left (by simp [Modifier.reorders])
    have hw := Eval.yields_ofExcept_iff.1 h
    exact ⟨_, (Except.ok.inj hw).symm⟩
  | generic keyword payload =>
    obtain ⟨items, rfl⟩ := hv.resolve_left (by simp [Modifier.reorders])
    obtain ⟨-, -, h⟩ := Eval.yields_bind h
    exact ⟨items, Eval.yields_pure_iff.1 h⟩

/-- Behind a modifier that reorders there is an array. -/
theorem array_of_yields_runModifiers {accessor : Accessor} {aliasName : String}
    {modifiers : List Modifier} {v w : Value}
    (hv : (∃ m ∈ modifiers, m.reorders) ∨ ∃ items, v = .array items)
    (h : (runModifiers accessor aliasName modifiers v).Yields w) : ∃ items, w = .array items := by
  induction modifiers generalizing v with
  | nil =>
    obtain ⟨items, rfl⟩ := hv.resolve_left (by simp)
    exact ⟨items, Eval.yields_pure_iff.1 h⟩
  | cons modifier modifiers ih =>
    obtain ⟨u, hu, h⟩ := Eval.yields_bind h
    by_cases hfirst : modifier.reorders ∨ ∃ items, v = .array items
    · exact ih (.inr (array_of_yields_runModifier hfirst hu)) h
    · refine ih (.inl ?_) h
      obtain ⟨hno, hnot⟩ := not_or.1 hfirst
      obtain ⟨m, hm, hr⟩ := hv.resolve_right hnot
      rcases List.mem_cons.1 hm with rfl | hm
      · exact (hno hr).elim
      · exact ⟨m, hm, hr⟩

namespace Evaluator

variable {ev : Evaluator} {entity : Entity} {entries : Entries Value}

/-- Applying the sub-query to each value keeps the keys. -/
theorem object_of_yields_descend (hr : ev.recursion = .elementWise) {w : Value}
    (h : (ev.descend entity (.object entries)).Yields w) :
    ∃ whole : Entries Value, w = .object whole ∧ whole.keys = entries.keys := by
  have hleaf : (pure (.object entries) : Eval Value).Yields w →
      ∃ whole : Entries Value, w = .object whole ∧ whole.keys = entries.keys :=
    fun hw => ⟨entries, Eval.yields_pure_iff.1 hw, rfl⟩
  unfold descend at h
  cases hc : entity.children with
  | none =>
    rw [hc] at h
    exact hleaf h
  | some query =>
    rw [hc] at h
    dsimp only at h
    split at h
    · exact hleaf h
    · simp only [project, hr] at h
      obtain ⟨whole, hwhole, rfl⟩ := Eval.yields_map h
      have hkeys : List.Forall₂ Eq entries.keys (Entries.keys whole) := by
        unfold Entries.keys
        rw [List.forall₂_map_left_iff, List.forall₂_map_right_iff]
        refine (Eval.forall₂_of_yields_forEach hwhole).imp fun entry result he => ?_
        obtain ⟨s, -, rfl⟩ := Eval.yields_map he
        rfl
      rw [List.forall₂_eq_eq_eq] at hkeys
      exact ⟨whole, rfl, hkeys.symm⟩

/-- An entity fails on an object, or runs its modifiers on what it makes of it without them: an
object with the same keys. -/
theorem evaluate_object (hn : ev.normalizers = Normalizer.default)
    (hr : ev.recursion = .elementWise) (entity : Entity) (entries : Entries Value)
    (g : Generator) :
    (∃ e, (ev.evaluate entity (.object entries) g).result = .error e) ∨
      ∃ (whole : Entries Value) (g' : Generator), whole.keys = entries.keys ∧
        (ev.evaluate { entity with modifiers := [] } (.object entries) g).result =
          .ok (.object whole) ∧
        (ev.evaluate entity (.object entries) g).result =
          (runModifiers ev.accessor entity.aliasName entity.modifiers (.object whole) g').result := by
  rw [evaluate_of_prepare ev (prepare_object hn _), evaluate_of_prepare ev (prepare_object hn _)]
  rcases hd : ev.descend entity (.object entries) g with ⟨r, ds, g'⟩
  cases r with
  | error e =>
    rw [Eval.error_bind hd]
    exact .inl ⟨e, rfl⟩
  | ok w =>
    have hw : (ev.descend entity (.object entries)).Yields w := ⟨g, by rw [hd]⟩
    obtain ⟨whole, rfl, hkeys⟩ := object_of_yields_descend hr hw
    have hd' : ev.descend { entity with modifiers := [] } (.object entries) g =
        ⟨.ok (.object whole), ds, g'⟩ := hd
    rw [Eval.ok_bind hd, Eval.ok_bind hd']
    exact .inr ⟨whole, g', hkeys, rfl, rfl⟩

end Evaluator

/-- **An object and the list of its values go in lock step.** An entity reports the same on both,
leaves the generator alike, and fails on both with the same error or gives results with the same
items. If a modifier reorders them, the results are equal; otherwise the result for the object is
the object that the entity gives without modifiers, cut by the limits, so it has the keys of the
object, cut as the values are. -/
theorem evaluate_object_values (accessor : Accessor) (entity : Entity) (entries : Entries Value)
    (g : Generator) :
    let ev : Evaluator :=
      { accessor, normalizers := Normalizer.default, recursion := .elementWise }
    let keyed := ev.evaluate entity (.object entries) g
    let listed := ev.evaluate entity (.array (entries.map Prod.snd)) g
    keyed.reports = listed.reports ∧ keyed.generator = listed.generator ∧
      ((∃ e, keyed.result = .error e ∧ listed.result = .error e) ∨
        ∃ result items, keyed.result = .ok result ∧ listed.result = .ok (.array items) ∧
          (result = .array items ∨
            ∃ cut : Entries Value, result = .object cut ∧ cut.map Prod.snd = items) ∧
          ((∃ m ∈ entity.modifiers, m.reorders) → result = .array items) ∧
          ((∀ m ∈ entity.modifiers, m.reorders = false) → ∃ whole : Entries Value,
            (ev.evaluate { entity with modifiers := [] } (.object entries) g).result =
              .ok (.object whole) ∧
            result = .object (slices entity.modifiers whole) ∧
            Entries.keys (slices entity.modifiers whole) =
              slices entity.modifiers entries.keys ∧
            items = slices entity.modifiers (whole.map Prod.snd))) := by
  intro ev keyed listed
  have hlisted : listed = ⟨keyed.result.map Value.unkey, keyed.reports, keyed.generator⟩ := by
    show ev.evaluate entity (.array (entries.map Prod.snd)) g = _
    rw [Evaluator.evaluate_unkey rfl rfl, Eval.map_apply]
  refine ⟨by rw [hlisted], by rw [hlisted], ?_⟩
  rw [hlisted]
  have hobject := ev.evaluate_object rfl rfl entity entries g
  obtain ⟨e, he⟩ | ⟨whole, g', hkeys, hbare, hresult⟩ := hobject
  · have hfails : keyed.result = .error e := he
    rw [hfails]
    exact .inl ⟨e, rfl, rfl⟩
  have hkeyed : keyed.result =
      (runModifiers accessor entity.aliasName entity.modifiers (.object whole) g').result := hresult
  by_cases hm : ∃ m ∈ entity.modifiers, m.reorders
  · cases hk : keyed.result with
    | error e => exact .inl ⟨e, rfl, rfl⟩
    | ok result =>
      obtain ⟨items, rfl⟩ := array_of_yields_runModifiers (.inl hm) ⟨g', hkeyed.symm.trans hk⟩
      refine .inr ⟨_, items, rfl, rfl, .inl rfl, fun _ => rfl, fun hno => ?_⟩
      obtain ⟨m, hmem, hr⟩ := hm
      rw [hno m hmem] at hr
      cases hr
  · have hno : ∀ m ∈ entity.modifiers, m.reorders = false :=
      fun m hmem => Bool.eq_false_iff.2 fun hr => hm ⟨m, hmem, hr⟩
    rw [hkeyed, runModifiers_object accessor entity.aliasName hno]
    refine .inr ⟨_, _, rfl, rfl, .inr ⟨_, rfl, rfl⟩, fun h => (hm h).elim,
      fun _ => ⟨whole, hbare, rfl, ?_, ?_⟩⟩
    · rw [← hkeys]
      exact (slices_map Prod.fst entity.modifiers whole).symm
    · exact (slices_map Prod.snd entity.modifiers whole).symm

end NestedQuery
