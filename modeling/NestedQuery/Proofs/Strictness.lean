/-
# Strictness

A strict accessor changes what a query makes of a root in one way only: it
may fail for want of a property. If it does not, the lenient accessor gives
the same outcome with the same reports; if it does, what was reported until
then is where the reports of the lenient run begin.

Deferred values are handed the accessor, and one that looks at it can do what
it likes. So none of those that the root or its resolver holds may look, nor
those that the normalizers hand out; the steps of the default chain hand out
what they were given. A chain that puts such a value where there was none makes
a strict run differ from the lenient one on any root
(`exists_strict_ne_lenient`).

Key definitions: `Value.IgnoresAccessor`, `Root.IgnoresAccessor`,
`Normalizer.IgnoresAccessor`, `Normalizer.ChainIgnoresAccessor`.
Key theorems: `strict_simulation`, `apply_strict_or_missing`.
-/
import NestedQuery.Proofs.Simulation

namespace NestedQuery

/-! ### Values that do not look at the accessor -/

/-- The deferred values within this one, and within what they compute, do not depend on the
accessor that they are handed. -/
inductive Value.IgnoresAccessor : Value → Prop
  | scalar {v : Value} : v.isScalar → IgnoresAccessor v
  | array {items : List Value} : (∀ v ∈ items, v.IgnoresAccessor) → IgnoresAccessor (.array items)
  | object {entries : Entries Value} :
    (∀ e ∈ entries, e.2.IgnoresAccessor) → IgnoresAccessor (.object entries)
  | record {handle : Nat} {type : String} {attributes : Entries Value} :
    (∀ e ∈ attributes, e.2.IgnoresAccessor) → IgnoresAccessor (.record handle type attributes)
  | deferred {handle : Nat} {compute : Entity → Accessor → Except EvalError Value} :
    (∀ entity a b, compute entity a = compute entity b) →
    (∀ entity a v, compute entity a = .ok v → v.IgnoresAccessor) →
    IgnoresAccessor (.deferred handle compute)
  | collection {handle : Nat} {outcome : Except EvalError (List Value)} :
    (∀ items, outcome = .ok items → ∀ v ∈ items, v.IgnoresAccessor) →
    IgnoresAccessor (.collection handle outcome)

/-- So does a root; a resolver is not handed the accessor, but what it gives may be. -/
def Root.IgnoresAccessor : Root → Prop
  | .value v => v.IgnoresAccessor
  | .resolver resolve => ∀ path entity v, resolve path entity = .ok v → v.IgnoresAccessor

/-- The step hands out no deferred value that looks at the accessor unless it was given one. -/
def Normalizer.IgnoresAccessor (step : Normalizer) : Prop :=
  ∀ v w, v.IgnoresAccessor → step v = .ok w → w.IgnoresAccessor

namespace Normalizer

/-- The steps one after the other hand out none either. -/
def ChainIgnoresAccessor (steps : List Normalizer) : Prop :=
  ∀ v w, v.IgnoresAccessor → normalize steps v = .ok w → w.IgnoresAccessor

theorem chainIgnoresAccessor {steps : List Normalizer}
    (h : ∀ step ∈ steps, step.IgnoresAccessor) : ChainIgnoresAccessor steps := by
  intro v w hv hw
  induction steps generalizing v with
  | nil =>
    cases hw
    exact hv
  | cons step steps ih =>
    obtain ⟨hstep, hsteps⟩ := List.forall_mem_cons.1 h
    unfold normalize at hw
    cases hx : step v with
    | error e =>
      rw [hx] at hw
      cases hw
    | ok x =>
      rw [hx] at hw
      exact ih hsteps x (hstep v x hv hx) hw

theorem realizeCollections_ignoresAccessor : realizeCollections.IgnoresAccessor := by
  intro v w hv hw
  obtain rfl | ⟨handle, items, rfl, rfl⟩ := Value.realize_eq_ok hw
  · exact hv
  · cases hv with
    | collection hitems => exact .array (hitems items rfl)
    | scalar hs => cases hs

theorem isoDateTimes_ignoresAccessor : isoDateTimes.IgnoresAccessor := by
  intro v w hv hw
  unfold isoDateTimes at hw
  split at hw
  · cases hw
    exact .scalar rfl
  · cases hw
    exact hv

theorem default_ignoresAccessor : ChainIgnoresAccessor default := by
  refine chainIgnoresAccessor fun step h => ?_
  rcases List.mem_pair.1 h with rfl | rfl
  · exact realizeCollections_ignoresAccessor
  · exact isoDateTimes_ignoresAccessor

end Normalizer

/-! ### The simulation -/

/-- Only for want of a property is a strict run cut short. -/
def IsMissing (e : EvalError) : Prop := ∃ path, e = .noSuchProperty path

/-- The same value, which does not look at the accessor. -/
def SameBlind (v w : Value) : Prop := v.IgnoresAccessor ∧ v = w

theorem sameBlind_self {v : Value} (h : v.IgnoresAccessor) : SameBlind v v := ⟨h, rfl⟩

theorem forall₂_sameBlind_iff {items items' : List Value} :
    List.Forall₂ SameBlind items items' ↔
      (∀ v ∈ items, v.IgnoresAccessor) ∧ items = items' := by
  unfold SameBlind
  rw [List.forall₂_and_left, List.forall₂_eq_eq_eq]

theorem related_sameBlind_iff {entries entries' : Entries Value} :
    Entries.Related SameBlind entries entries' ↔
      (∀ e ∈ entries, e.2.IgnoresAccessor) ∧ entries = entries' := by
  have hpair : ∀ e e' : String × Value,
      e.1 = e'.1 ∧ SameBlind e.2 e'.2 ↔ e.2.IgnoresAccessor ∧ e = e' := fun e e' =>
    ⟨fun ⟨hk, hb, hv⟩ => ⟨hb, Prod.ext hk hv⟩, fun ⟨hb, he⟩ => he ▸ ⟨rfl, hb, rfl⟩⟩
  simp only [Entries.Related, hpair]
  rw [List.forall₂_and_left, List.forall₂_eq_eq_eq]

theorem selected_sameBlind {s s' : Selection} (h : Simulation.Selected SameBlind s s') : s = s' := by
  cases h with
  | none => rfl
  | some he => rw [(related_sameBlind_iff.1 he).2]

theorem sameShape_of_ignoresAccessor {v : Value} (h : v.IgnoresAccessor) (a b : Accessor) :
    SameShape a b SameBlind v v := by
  cases h with
  | scalar hs => exact .scalar hs
  | array hitems => exact .sequence rfl rfl (.ok (forall₂_sameBlind_iff.2 ⟨hitems, rfl⟩))
  | object he => exact .object (related_sameBlind_iff.2 ⟨he, rfl⟩)
  | record he => exact .record (related_sameBlind_iff.2 ⟨he, rfl⟩)
  | deferred hsame hv =>
    refine .deferred fun entity => ?_
    rw [hsame entity b a]
    exact .refl fun v hc => sameBlind_self (hv entity a v hc)
  | collection hitems =>
    refine .sequence rfl rfl (.refl fun items ho => ?_)
    exact forall₂_sameBlind_iff.2 ⟨hitems items ho, rfl⟩

/-- A strict evaluator does what a lenient one does, as long as no property is missing. -/
theorem strict_simulation (ev : Evaluator)
    (hn : Normalizer.ChainIgnoresAccessor ev.normalizers) :
    Simulation IsMissing { ev with accessor := ⟨true⟩ } { ev with accessor := ⟨false⟩ }
      SameBlind where
  shape := fun ⟨hb, hv⟩ => hv ▸ sameShape_of_ignoresAccessor hb _ _
  null := sameBlind_self (.scalar rfl)
  array hitems := by
    obtain ⟨hb, rfl⟩ := forall₂_sameBlind_iff.1 hitems
    exact sameBlind_self (.array hb)
  object he := by
    obtain ⟨hb, rfl⟩ := related_sameBlind_iff.1 he
    exact sameBlind_self (.object hb)
  missing path := .stopped ⟨path, rfl⟩
  normalize := fun {v _} ⟨hb, hv⟩ => hv ▸ .refl fun w hw => sameBlind_self (hn v w hb hw)
  recursion := rfl

theorem related_of_ignoresAccessor {root : Root} (h : root.IgnoresAccessor) :
    Root.Related IsMissing SameBlind root root := by
  cases root with
  | value v => exact .value (sameBlind_self h)
  | resolver resolve =>
    exact .resolver fun path entity => .refl fun v hv => sameBlind_self (h path entity v hv)

/-- A strict run ends like the lenient one unless a property is missing, and then it reported
what the lenient run reports first. -/
theorem apply_strict_or_missing (ev : Evaluator)
    (hn : Normalizer.ChainIgnoresAccessor ev.normalizers) (query : Query) {root : Root}
    (hr : root.IgnoresAccessor) (g : Generator) :
    let strict := Evaluator.apply { ev with accessor := ⟨true⟩ } query root g
    let lenient := Evaluator.apply { ev with accessor := ⟨false⟩ } query root g
    ((∀ path, strict.result ≠ .error (.noSuchProperty path)) → strict = lenient) ∧
      ((∃ path, strict.result = .error (.noSuchProperty path)) →
        strict.reports <+: lenient.reports) := by
  intro strict lenient
  have hagree := (strict_simulation ev hn).apply query (related_of_ignoresAccessor hr) g
  change strict.Agree IsMissing (Simulation.Selected SameBlind) lenient at hagree
  generalize strict = o at hagree
  generalize lenient = o' at hagree
  cases hagree with
  | ok hs =>
    refine ⟨fun _ => ?_, fun _ => List.prefix_rfl⟩
    rw [selected_sameBlind hs]
  | error e ds g => exact ⟨fun _ => rfl, fun _ => List.prefix_rfl⟩
  | stopped hs hp =>
    obtain ⟨path, rfl⟩ := hs
    exact ⟨fun hne => (hne path rfl).elim, fun _ => hp⟩

/-- The property of the first entity is there, and its modifier is reported by either run; that
of the second one is missing. -/
theorem apply_strict_or_missing_second :
    let root : Root :=
      .value (.object [("a", .deferred 0 fun entity _ => .ok (.string entity.path))])
    let first : Entity := ⟨"a", "a", none, none, [.generic "mark" none]⟩
    let second : Entity := ⟨"b", "b", none, none, []⟩
    let strict : Evaluator := { accessor := ⟨true⟩ }
    let lenient : Evaluator := { accessor := ⟨false⟩ }
    root.IgnoresAccessor ∧ Normalizer.ChainIgnoresAccessor Normalizer.default ∧
      strict.apply [first] root ⟨0⟩ = lenient.apply [first] root ⟨0⟩ ∧
      (strict.apply [first, second] root ⟨0⟩).result = .error (.noSuchProperty "b") ∧
      (strict.apply [first, second] root ⟨0⟩).reports <+:
        (lenient.apply [first, second] root ⟨0⟩).reports := by
  intro root first second strict lenient
  have hn := Normalizer.default_ignoresAccessor
  have hr : root.IgnoresAccessor := by
    refine .object fun e he => ?_
    rw [List.mem_singleton.1 he]
    refine .deferred (fun _ _ _ => rfl) fun _ _ v hv => ?_
    cases hv
    exact .scalar rfl
  have hfirst := apply_strict_or_missing {} hn [first] hr ⟨0⟩
  have hboth := apply_strict_or_missing {} hn [first, second] hr ⟨0⟩
  have hresult : (strict.apply [first, second] root ⟨0⟩).result = .error (.noSuchProperty "b") := by
    cbv
  have hfound : ∀ path, (strict.apply [first] root ⟨0⟩).result ≠ .error (.noSuchProperty path) := by
    intro path h
    cases h
  exact ⟨hr, hn, hfirst.1 hfound, hresult, hboth.2 ⟨"b", hresult⟩⟩

/-- A step that makes of a whole number a row with a deferred value that looks at the accessor, and
nothing of other values. On a root without deferred values neither run misses a property, and they
end with different values. -/
theorem exists_strict_ne_lenient :
    let asked : Value := .deferred 0 fun _ accessor => .ok (.boolean accessor.strict)
    let step : Normalizer
      | .integer _ => .ok (.array [.object [("x", asked)]])
      | v => .ok v
    let query : Query := [⟨"a", "a", none, some [⟨"x", "x", none, none, []⟩], []⟩]
    let run (strict : Bool) := Evaluator.apply { accessor := ⟨strict⟩, normalizers := [step] } query
      (.value (.object [("a", .integer 1)])) ⟨0⟩
    let row (b : Bool) : Value := .object [("x", .boolean b)]
    (run true).result = .ok (some [("a", .array [row true])]) ∧
      (run false).result = .ok (some [("a", .array [row false])]) ∧ run true ≠ run false := by
  intro asked step query run row
  have hstrict : (run true).result = .ok (some [("a", .array [row true])]) := by cbv
  have hlenient : (run false).result = .ok (some [("a", .array [row false])]) := by cbv
  refine ⟨hstrict, hlenient, fun h => ?_⟩
  rw [h, hlenient] at hstrict
  simp [row] at hstrict

end NestedQuery
