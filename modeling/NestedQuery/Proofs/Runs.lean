/-
# What runs give

Three ways to speak of an evaluation alone, whatever the state of the
generator that it starts from: some run of it gives a value, every run ends in
a value with a property or in an error that may occur, and all runs do the
same because none of them draws random words. Each of them goes through the
ways to combine evaluations.

Key definitions: `Eval.Yields`, `Meets`, `Eval.Meets`, `Eval.Steady`.
Key theorems: `Eval.yields_bind`, `Eval.forall₂_of_yields_forEach`,
`Eval.Meets.bind`, `Eval.Meets.forEach`, `Eval.Steady.bind`,
`Eval.Steady.forEach_eq_ok_iff`, `Eval.Steady.forEach_eq_error_iff`,
`Eval.Steady.yields_iff`.
-/
import Mathlib.Data.List.Forall2
import NestedQuery.Eval

namespace NestedQuery

variable {α β : Type}

/-! ### Some run -/

/-- Some run of the evaluation gives this value. -/
def Eval.Yields (x : Eval α) (a : α) : Prop := ∃ g, (x g).result = .ok a

namespace Eval

@[simp] theorem yields_pure_iff {a b : α} : (pure a : Eval α).Yields b ↔ b = a := by
  constructor
  · rintro ⟨g, h⟩
    exact (Except.ok.inj h).symm
  · rintro rfl
    exact ⟨⟨0⟩, rfl⟩

@[simp] theorem yields_ofExcept_iff {x : Except EvalError α} {a : α} :
    (ofExcept x).Yields a ↔ x = .ok a :=
  ⟨fun ⟨_, h⟩ => h, fun h => ⟨⟨0⟩, h⟩⟩

/-- What two evaluations one after the other give, the second one gives behind the first. -/
theorem yields_bind {x : Eval α} {f : α → Eval β} {b : β} (h : (x >>= f).Yields b) :
    ∃ a, x.Yields a ∧ (f a).Yields b := by
  obtain ⟨g, hg⟩ := h
  rcases hx : x g with ⟨r, ds, g'⟩
  cases r with
  | error e =>
    rw [error_bind hx] at hg
    cases hg
  | ok a =>
    rw [ok_bind hx] at hg
    exact ⟨a, ⟨g, by rw [hx]⟩, g', hg⟩

theorem yields_map {x : Eval α} {f : α → β} {b : β} (h : (f <$> x).Yields b) :
    ∃ a, x.Yields a ∧ b = f a := by
  rw [map_eq_pure_bind] at h
  obtain ⟨a, ha, hb⟩ := yields_bind h
  exact ⟨a, ha, yields_pure_iff.1 hb⟩

/-- Only the result is mapped. -/
theorem map_apply (f : α → β) (x : Eval α) (g : Generator) :
    (f <$> x) g = ⟨(x g).result.map f, (x g).reports, (x g).generator⟩ := by
  rcases hx : x g with ⟨r, ds, g'⟩
  rw [map_eq_pure_bind]
  cases r with
  | error e => exact error_bind hx
  | ok a =>
    rw [ok_bind hx]
    exact congrArg (Outcome.mk _ · g') (List.append_nil ds)

theorem map_result (f : α → β) (x : Eval α) (g : Generator) :
    ((f <$> x) g).result = (x g).result.map f := by
  rw [map_apply]

theorem result_map {x : Eval α} {g : Generator} {a : α} (h : (x g).result = .ok a) (f : α → β) :
    ((f <$> x) g).result = .ok (f a) := by
  rw [map_result, h]
  rfl

theorem Yields.map {x : Eval α} {a : α} (h : x.Yields a) (f : α → β) : (f <$> x).Yields (f a) := by
  obtain ⟨g, hg⟩ := h
  exact ⟨g, result_map hg f⟩

/-- A loop gives as many values as there are items, each one what the body gives for its item. -/
theorem forall₂_of_yields_forEach {f : α → Eval β} {xs : List α} {ys : List β}
    (h : (forEach f xs).Yields ys) : List.Forall₂ (fun x y => (f x).Yields y) xs ys := by
  induction xs generalizing ys with
  | nil =>
    rw [forEach, yields_pure_iff] at h
    rw [h]
    exact .nil
  | cons x xs ih =>
    obtain ⟨y, hy, h⟩ := yields_bind h
    obtain ⟨zs, hzs, h⟩ := yields_bind h
    rw [yields_pure_iff] at h
    rw [h]
    exact .cons hy (ih hzs)

end Eval

/-! ### Every run -/

section

variable {Fail : EvalError → Prop} {P : α → Prop} {Q : β → Prop}

/-- A value with the property, or an error that may occur. -/
inductive Meets (Fail : EvalError → Prop) (P : α → Prop) : Except EvalError α → Prop
  | ok {a : α} : P a → Meets Fail P (.ok a)
  | error {e : EvalError} : Fail e → Meets Fail P (.error e)

namespace Meets

theorem of_eq_ok {x : Except EvalError α} {a : α} (h : Meets Fail P x) (hx : x = .ok a) : P a := by
  subst hx
  cases h with
  | ok ha => exact ha

theorem of_eq_error {x : Except EvalError α} {e : EvalError} (h : Meets Fail P x)
    (hx : x = .error e) : Fail e := by
  subst hx
  cases h with
  | error he => exact he

theorem bind {x : Except EvalError α} {f : α → Except EvalError β} (h : Meets Fail P x)
    (hf : ∀ {a}, P a → Meets Fail Q (f a)) : Meets Fail Q (x.bind f) := by
  cases h with
  | ok ha => exact hf ha
  | error he => exact .error he

theorem map {x : Except EvalError α} {f : α → β} (h : Meets Fail P x)
    (hf : ∀ {a}, P a → Q (f a)) : Meets Fail Q (x.map f) := by
  cases h with
  | ok ha => exact .ok (hf ha)
  | error he => exact .error he

end Meets

/-- Every run gives a value with the property, or fails with an error that may occur. -/
def Eval.Meets (Fail : EvalError → Prop) (P : α → Prop) (x : Eval α) : Prop :=
  ∀ g, NestedQuery.Meets Fail P (x g).result

namespace Eval.Meets

theorem pure {a : α} (h : P a) : Meets Fail P (pure a : Eval α) := fun _ => .ok h

theorem ofExcept {x : Except EvalError α} (h : NestedQuery.Meets Fail P x) :
    Meets Fail P (ofExcept x) := fun _ => h

theorem report (d : Diagnostic) : Meets Fail (fun _ => True) (report d) := fun _ => .ok trivial

theorem reportAll (ds : List Diagnostic) : Meets Fail (fun _ => True) (reportAll ds) :=
  fun _ => .ok trivial

theorem bind {x : Eval α} {f : α → Eval β} (h : Meets Fail P x)
    (hf : ∀ {a}, P a → Meets Fail Q (f a)) : Meets Fail Q (x >>= f) := by
  intro g
  have hg := h g
  rcases hx : x g with ⟨r, ds, g'⟩
  rw [hx] at hg
  cases hg with
  | ok ha =>
    rw [ok_bind hx]
    exact hf ha g'
  | error he =>
    rw [error_bind hx]
    exact .error he

theorem map {x : Eval α} {f : α → β} (h : Meets Fail P x) (hf : ∀ {a}, P a → Q (f a)) :
    Meets Fail Q (f <$> x) := by
  rw [map_eq_pure_bind]
  exact h.bind fun ha => pure (hf ha)

/-- A loop whose body keeps to the property for every item. -/
theorem forEach {f : α → Eval β} {xs : List α} (hf : ∀ x ∈ xs, Meets Fail Q (f x)) :
    Meets Fail (fun ys => ∀ y ∈ ys, Q y) (forEach f xs) := by
  induction xs with
  | nil => exact pure (by simp)
  | cons x xs ih =>
    refine (hf x List.mem_cons_self).bind fun hy => ?_
    refine (ih fun x hx => hf x (List.mem_cons_of_mem _ hx)).bind fun hys => pure ?_
    exact List.forall_mem_cons.2 ⟨hy, hys⟩

/-- A shuffle loses no item and adds none. -/
theorem shuffle {xs : List α} (h : ∀ x ∈ xs, P x) :
    Meets Fail (fun ys => ∀ y ∈ ys, P y) (shuffle xs) :=
  fun g => .ok fun y hy => h y ((Generator.shuffle_perm xs g).mem_iff.1 hy)

end Eval.Meets

end

/-! ### All runs alike -/

/-- Every run gives and reports the same and leaves the generator as it was. -/
def Eval.Steady (x : Eval α) : Prop := ∃ result reports, ∀ g, x g = ⟨result, reports, g⟩

namespace Eval.Steady

theorem pure (a : α) : Steady (pure a : Eval α) := ⟨.ok a, [], fun _ => rfl⟩

theorem ofExcept (x : Except EvalError α) : Steady (ofExcept x) := ⟨x, [], fun _ => rfl⟩

theorem report (d : Diagnostic) : Steady (report d) := ⟨.ok (), [d], fun _ => rfl⟩

theorem reportAll (ds : List Diagnostic) : Steady (reportAll ds) := ⟨.ok (), ds, fun _ => rfl⟩

theorem bind {x : Eval α} {f : α → Eval β} (h : Steady x) (hf : ∀ a, Steady (f a)) :
    Steady (x >>= f) := by
  obtain ⟨r, ds, hx⟩ := h
  cases r with
  | error e => exact ⟨.error e, ds, fun g => error_bind (hx g)⟩
  | ok a =>
    obtain ⟨r', ds', hy⟩ := hf a
    refine ⟨r', ds ++ ds', fun g => ?_⟩
    rw [ok_bind (hx g), hy]

theorem map {x : Eval α} (h : Steady x) (f : α → β) : Steady (f <$> x) := by
  rw [map_eq_pure_bind]
  exact h.bind fun _ => pure _

theorem forEach {f : α → Eval β} {xs : List α} (hf : ∀ x ∈ xs, Steady (f x)) :
    Steady (forEach f xs) := by
  induction xs with
  | nil => exact pure _
  | cons x xs ih =>
    obtain ⟨hx, hxs⟩ := List.forall_mem_cons.1 hf
    exact hx.bind fun _ => (ih hxs).bind fun _ => pure _

/-- All runs end alike. -/
theorem result_eq {x : Eval α} (h : Steady x) (g g' : Generator) :
    (x g).result = (x g').result := by
  obtain ⟨r, ds, hx⟩ := h
  rw [hx, hx]

theorem result_bind {x : Eval α} (h : Steady x) (f : α → Eval β) (g : Generator) :
    ((x >>= f) g).result = (x g).result.bind fun a => (f a g).result := by
  obtain ⟨r, ds, hx⟩ := h
  cases r with
  | error e =>
    rw [error_bind (hx g), hx]
    rfl
  | ok a =>
    rw [ok_bind (hx g), hx]
    rfl

theorem result_forEach_cons {f : α → Eval β} {x : α} (hx : Steady (f x)) (xs : List α)
    (g : Generator) :
    (Eval.forEach f (x :: xs) g).result =
      (f x g).result.bind fun y => (Eval.forEach f xs g).result.map (y :: ·) := by
  have hcons : Eval.forEach f (x :: xs) =
      f x >>= fun y => (fun ys => y :: ys) <$> Eval.forEach f xs := by
    simp only [Eval.forEach, map_eq_pure_bind]
  rw [hcons, result_bind hx]
  simp only [map_result]

/-- A loop gives what its body gives for each item alone. -/
theorem forEach_eq_ok_iff {f : α → Eval β} {xs : List α} (hf : ∀ x ∈ xs, Steady (f x))
    {ys : List β} (g : Generator) :
    (Eval.forEach f xs g).result = .ok ys ↔
      List.Forall₂ (fun x y => (f x g).result = .ok y) xs ys := by
  induction xs generalizing ys with
  | nil =>
    rw [List.forall₂_nil_left_iff]
    exact ⟨fun h => (Except.ok.inj h).symm, fun h => congrArg Except.ok h.symm⟩
  | cons x xs ih =>
    obtain ⟨hhead, htail⟩ := List.forall_mem_cons.1 hf
    rw [result_forEach_cons hhead, List.forall₂_cons_left_iff]
    constructor
    · intro h
      cases hx : (f x g).result with
      | error e =>
        rw [hx] at h
        cases h
      | ok y =>
        cases hxs : (Eval.forEach f xs g).result with
        | error e =>
          rw [hx, hxs] at h
          cases h
        | ok zs =>
          rw [hx, hxs] at h
          exact ⟨y, zs, rfl, (ih htail).1 hxs, (Except.ok.inj h).symm⟩
    · rintro ⟨y, zs, hx, hxs, rfl⟩
      rw [hx, (ih htail).2 hxs]
      rfl

/-- A loop fails as its body does for the first item for which that fails alone. -/
theorem forEach_eq_error_iff {f : α → Eval β} {xs : List α} (hf : ∀ x ∈ xs, Steady (f x))
    {e : EvalError} (g : Generator) :
    (Eval.forEach f xs g).result = .error e ↔
      ∃ before x after, xs = before ++ x :: after ∧
        (∀ other ∈ before, ∃ y, (f other g).result = .ok y) ∧ (f x g).result = .error e := by
  induction xs with
  | nil =>
    constructor
    · intro h
      cases h
    · rintro ⟨before, x, after, h, -⟩
      simp at h
  | cons x xs ih =>
    obtain ⟨hhead, htail⟩ := List.forall_mem_cons.1 hf
    rw [result_forEach_cons hhead]
    cases hx : (f x g).result with
    | error e' =>
      constructor
      · intro h
        cases h
        exact ⟨[], x, xs, rfl, List.forall_mem_nil _, hx⟩
      · rintro ⟨before, first, after, hxs, hbefore, hfirst⟩
        -- an item in front of the first failure would not have failed
        cases before with
        | nil =>
          cases hxs
          rw [hx] at hfirst
          cases hfirst
          rfl
        | cons other before =>
          cases hxs
          obtain ⟨y, hy⟩ := hbefore x List.mem_cons_self
          rw [hx] at hy
          cases hy
    | ok y =>
      have hrest : (Except.ok y).bind (fun y => (Eval.forEach f xs g).result.map (y :: ·)) =
          .error e ↔ (Eval.forEach f xs g).result = .error e := by
        cases (Eval.forEach f xs g).result <;> simp [Except.bind, Except.map]
      rw [hrest, ih htail]
      constructor
      · rintro ⟨before, first, after, rfl, hbefore, hfirst⟩
        refine ⟨x :: before, first, after, rfl, ?_, hfirst⟩
        exact List.forall_mem_cons.2 ⟨⟨y, hx⟩, hbefore⟩
      · rintro ⟨before, first, after, hxs, hbefore, hfirst⟩
        cases before with
        | nil =>
          cases hxs
          rw [hx] at hfirst
          cases hfirst
        | cons other before =>
          cases hxs
          exact ⟨before, first, after, rfl, (List.forall_mem_cons.1 hbefore).2, hfirst⟩

/-- What some run gives, every run gives. -/
theorem yields_iff {x : Eval α} (h : Steady x) (g : Generator) {a : α} :
    x.Yields a ↔ (x g).result = .ok a := by
  obtain ⟨r, ds, hx⟩ := h
  constructor
  · rintro ⟨g', hg⟩
    rw [hx] at hg ⊢
    exact hg
  · exact fun hg => ⟨g, hg⟩

end Eval.Steady
end NestedQuery
