/-
# Decimals keep the order of binary numbers

A binary number becomes a decimal by dropping digits and then by rounding
half up, place by place, and how many places are rounded away depends on the
number. Rounding twice is not rounding once, so that this keeps the order is
no matter of course. It does for two reasons. A coefficient that is too long
to stay is at least `2 ^ 52`, and rounding one place away from that does not
lead below it (`Decimal96.kept_mono`). And numbers that start with different
numbers of places are far enough apart: a number differs from a greater one
by more than one part in `2 ^ 53` (`Binary64.Finite.lt_mul_sub`), which is
more than all the roundings together make up for.

Key definitions: `Decimal96.magnitude`, `Decimal96.toRat`, `Decimal96.kept`,
`Decimal96.unitsBound`.
Key theorems: `Binary64.Finite.lt_mul_sub`, `Decimal96.kept_mono`,
`Decimal96.kept_le_of_more_places`, `Decimal96.kept_le_of_lt`,
`Decimal96.toRat_mono`.
-/
import Mathlib.Algebra.Order.Ring.Rat
import Mathlib.Data.Rat.Cast.Order
import Mathlib.Order.WithBot
import Mathlib.Tactic.GCongr
import Mathlib.Tactic.Linarith
import Mathlib.Tactic.NormNum
import Mathlib.Tactic.Positivity
import Mathlib.Tactic.Ring
import NestedQuery.Decimal96

namespace NestedQuery

/-! ### The distance of binary numbers -/

/-- Multiples of powers of two by at most 53 bits, in the form that is used for numbers. -/
theorem lt_mul_sub_of_canonical {m n a b : ℕ} (hm : m < 2 ^ 53) (hn : n < 2 ^ 53)
    (hc : 2 ^ 52 ≤ m ∨ a = 0) (h : m * 2 ^ a < n * 2 ^ b) :
    m * 2 ^ a < 2 ^ 53 * (n * 2 ^ b - m * 2 ^ a) := by
  rcases Nat.lt_or_ge b a with hab | hab
  · -- a number of a higher exponent is not the smaller one
    have hm52 : 2 ^ 52 ≤ m := by omega
    have hpow : 2 ^ (b + 1) ≤ 2 ^ a := Nat.pow_le_pow_right (by norm_num) hab
    have hle : n * 2 ^ b ≤ m * 2 ^ a :=
      calc n * 2 ^ b ≤ 2 ^ 53 * 2 ^ b := Nat.mul_le_mul_right _ hn.le
        _ = 2 ^ 52 * 2 ^ (b + 1) := by ring
        _ ≤ m * 2 ^ a := Nat.mul_le_mul hm52 hpow
    omega
  · obtain ⟨d, rfl⟩ := Nat.exists_eq_add_of_le hab
    have hmul : n * 2 ^ (a + d) = n * 2 ^ d * 2 ^ a := by ring
    rw [hmul] at h ⊢
    have hlt : m < n * 2 ^ d := Nat.lt_of_mul_lt_mul_right h
    rw [← Nat.sub_mul]
    calc m * 2 ^ a < 2 ^ 53 * 2 ^ a := Nat.mul_lt_mul_of_pos_right hm (by positivity)
      _ ≤ 2 ^ 53 * ((n * 2 ^ d - m) * 2 ^ a) :=
          Nat.mul_le_mul_left _ (Nat.le_mul_of_pos_left _ (by omega))

namespace Binary64.Finite

theorem natAbs_units (x : Finite) :
    x.units.natAbs = x.mantissa * 2 ^ (x.exponent + 1074).toNat := by
  unfold units
  dsimp only
  split
  · rw [Int.natAbs_neg, Int.natAbs_natCast]
    rfl
  · rw [Int.natAbs_natCast]
    rfl

theorem units_nonneg {x : Finite} (h : x.negative = false) : 0 ≤ x.units := by
  simp only [units, h, Bool.false_eq_true, if_false]
  positivity

theorem units_nonpos {x : Finite} (h : x.negative = true) : x.units ≤ 0 := by
  simp only [units, h, if_true, Left.neg_nonpos_iff]
  positivity

/-- A number differs from a greater one by more than one part in `2 ^ 53`. -/
theorem lt_mul_sub {x y : Finite} (h : x.units.natAbs < y.units.natAbs) :
    x.units.natAbs < 2 ^ 53 * (y.units.natAbs - x.units.natAbs) := by
  obtain ⟨hx, -, -, hcanonical⟩ := x.canonical
  rw [natAbs_units, natAbs_units] at h ⊢
  exact lt_mul_sub_of_canonical hx y.canonical.1 (hcanonical.imp_right fun he => by simp [he]) h

end Binary64.Finite

namespace Decimal96

/-! ### Rounding places away -/

/-- The size of a decimal. -/
def magnitude (d : Decimal96) : ℚ := d.coefficient / 10 ^ d.places

/-- The decimal as a number. -/
def toRat (d : Decimal96) : ℚ := if d.negative then -d.magnitude else d.magnitude

/-- The size that is left when places are rounded away as needed. -/
def kept (coefficient places : ℕ) : ℚ := (trim false coefficient places).magnitude

/-- No place needs to be rounded away. -/
def Fits (coefficient places : ℕ) : Prop := places ≤ greatestPlaces ∧ coefficient < trimBound

theorem trimBound_eq : trimBound = 4503599627370496 := rfl

theorem coefficientBound_eq : coefficientBound = 2 ^ 96 := rfl

variable {c c' p q : ℕ}

theorem magnitude_nonneg (d : Decimal96) : 0 ≤ d.magnitude := by
  unfold magnitude
  positivity

theorem kept_nonneg (c p : ℕ) : 0 ≤ kept c p := magnitude_nonneg _

theorem kept_no_places (c : ℕ) : kept c 0 = c := by
  simp [kept, trim, magnitude]

theorem kept_of_fits (h : Fits c p) : kept c p = c / 10 ^ p := by
  cases p with
  | zero => simp [kept_no_places]
  | succ p =>
    rw [kept, trim, if_pos ⟨h.1, h.2⟩]
    rfl

theorem kept_of_small (h : ¬ Fits c (p + 1)) (hc : c < 10) : kept c (p + 1) = 0 := by
  have hlong : ¬ (p < greatestPlaces ∧ c < trimBound) := h
  rw [kept, trim, if_neg hlong, if_pos hc]
  simp [magnitude]

theorem kept_succ (h : ¬ Fits c (p + 1)) (hc : 10 ≤ c) :
    kept c (p + 1) = kept (divHalfUp c 10) p := by
  have hlong : ¬ (p < greatestPlaces ∧ c < trimBound) := h
  rw [kept, trim, if_neg hlong, if_neg (by omega)]
  rfl

theorem kept_zero (p : ℕ) : kept 0 p = 0 := by
  cases p with
  | zero => simp [kept_no_places]
  | succ p =>
    by_cases hf : Fits 0 (p + 1)
    · simp [kept_of_fits hf]
    · exact kept_of_small hf (by norm_num)

theorem negative_trim (negative : Bool) (c p : ℕ) : (trim negative c p).negative = negative := by
  fun_induction trim negative c p with
  | case1 => rfl
  | case2 => rfl
  | case3 => rfl
  | case4 c p _ _ ih => exact ih

theorem magnitude_trim (negative : Bool) (c p : ℕ) : (trim negative c p).magnitude = kept c p := by
  fun_induction trim negative c p with
  | case1 c => simp [magnitude, kept_no_places]
  | case2 c p h => exact (kept_of_fits ⟨h.1, h.2⟩).symm
  | case3 c p h hc => simp [magnitude, kept_of_small h hc]
  | case4 c p h hc ih => rw [ih, kept_succ h (by omega)]

/-- What fits with more places is compared as it is. -/
theorem kept_le_of_fits {k : ℕ} (hf : Fits c (p + k)) (hf' : Fits c' p) (h : c ≤ c' * 10 ^ k) :
    kept c (p + k) ≤ kept c' p := by
  rw [kept_of_fits hf, kept_of_fits hf', div_le_div_iff₀ (by positivity) (by positivity)]
  calc (c : ℚ) * 10 ^ p ≤ (c' * 10 ^ k : ℕ) * 10 ^ p := by gcongr
    _ = c' * 10 ^ (p + k) := by
        push_cast
        ring

theorem divHalfUp_mono (h : c ≤ c') : divHalfUp c 10 ≤ divHalfUp c' 10 := by
  unfold divHalfUp
  omega

/-- Rounding places away keeps the order of coefficients. -/
theorem kept_mono (h : c ≤ c') : kept c p ≤ kept c' p := by
  induction p generalizing c c' with
  | zero =>
    rw [kept_no_places, kept_no_places]
    exact_mod_cast h
  | succ p ih =>
    by_cases hf' : Fits c' (p + 1)
    · have hf : Fits c (p + 1) := ⟨hf'.1, h.trans_lt hf'.2⟩
      rw [kept_of_fits hf, kept_of_fits hf']
      gcongr
    · by_cases hf : Fits c (p + 1)
      · -- the greater coefficient is too long, and rounding one place of it leads down to `least`
        let least := divHalfUp trimBound 10
        have hbound : trimBound ≤ c' := by
          by_contra hlt
          exact hf' ⟨hf.1, by omega⟩
        have hleast : c ≤ least * 10 ^ 1 := by
          have := hf.2
          simp only [least, divHalfUp, trimBound_eq] at this ⊢
          omega
        have hfits : Fits least p := ⟨(Nat.le_succ p).trans hf.1, by decide⟩
        have hten : 10 ≤ c' := by
          rw [trimBound_eq] at hbound
          omega
        calc kept c (p + 1) ≤ kept least p := kept_le_of_fits hf hfits hleast
          _ ≤ kept (divHalfUp c' 10) p := ih (divHalfUp_mono hbound)
          _ = kept c' (p + 1) := (kept_succ hf' hten).symm
      · by_cases hc : c < 10
        · rw [kept_of_small hf hc]
          exact kept_nonneg _ _
        · rw [kept_succ hf (by omega), kept_succ hf' (by omega)]
          exact ih (divHalfUp_mono h)

/-- More places at the start do not lead beyond a coefficient that is greater by enough to make up
for one half, one twentieth, and so on. -/
theorem kept_le_of_more_places {k : ℕ} (hlong : 2 ^ 51 ≤ c')
    (h : 9 * c < (9 * c' + 4) * 10 ^ k + 5) : kept c (p + k) ≤ kept c' p := by
  induction k generalizing c with
  | zero => exact kept_mono (by omega)
  | succ k ih =>
    rw [← Nat.add_assoc]
    by_cases hf : Fits c (p + k + 1)
    · have hfits : Fits (2 ^ 51) p := ⟨by have := hf.1; omega, by decide⟩
      have hle : c ≤ 2 ^ 51 * 10 ^ (k + 1) := by
        have hc := hf.2
        have hpow : 10 ≤ 10 ^ (k + 1) := Nat.le_self_pow (Nat.succ_ne_zero k) 10
        rw [trimBound_eq] at hc
        omega
      calc kept c (p + (k + 1)) ≤ kept (2 ^ 51) p := kept_le_of_fits hf hfits hle
        _ ≤ kept c' p := kept_mono hlong
    · by_cases hc : c < 10
      · rw [kept_of_small hf hc]
        exact kept_nonneg _ _
      · rw [kept_succ hf (by omega)]
        apply ih
        have hround : 10 * divHalfUp c 10 ≤ c + 5 := by
          unfold divHalfUp
          omega
        have hpow : (9 * c' + 4) * 10 ^ (k + 1) = 10 * ((9 * c' + 4) * 10 ^ k) := by ring
        omega

/-! ### The places to begin with -/

/-- What `takeWhile` takes of consecutive numbers ends where the predicate fails. -/
theorem getLast?_takeWhile_range' {P : ℕ → Bool} {start n last : ℕ}
    (h : ((List.range' start n).takeWhile P).getLast? = some last) :
    last < start + n ∧ P last ∧ (last + 1 = start + n ∨ P (last + 1) = false) := by
  induction n generalizing start with
  | zero => simp at h
  | succ n ih =>
    rw [List.range'_succ, List.takeWhile_cons] at h
    split at h
    next hP =>
      rw [List.getLast?_cons] at h
      cases hrest : ((List.range' (start + 1) n).takeWhile P).getLast? with
      | some l =>
        obtain rfl : l = last := by simpa [hrest] using h
        obtain ⟨hl, hPl, hend⟩ := ih hrest
        exact ⟨by omega, hPl, hend.imp_left (by omega)⟩
      | none =>
        obtain rfl : start = last := by simpa [hrest] using h
        refine ⟨by omega, hP, ?_⟩
        cases n with
        | zero => exact .inl rfl
        | succ n =>
          refine .inr ?_
          simpa [List.range'_succ, List.takeWhile_cons] using hrest
    next => simp at h

variable {x y : Binary64.Finite}

theorem unitsPerOne_pos : 0 < Binary64.unitsPerOne := by decide +kernel

theorem coefficientAt_mono (h : x.units.natAbs ≤ y.units.natAbs) (hp : p ≤ q) :
    coefficientAt x p ≤ coefficientAt y q :=
  Nat.div_le_div_right (Nat.mul_le_mul h (Nat.pow_le_pow_right (by norm_num) hp))

theorem coefficientAt_of_zero (h : x.units = 0) : coefficientAt x p = 0 := by
  simp [coefficientAt, h]

theorem le_coefficientAt {n : ℕ} :
    n ≤ coefficientAt x p ↔ n * Binary64.unitsPerOne ≤ x.units.natAbs * 10 ^ p :=
  Nat.le_div_iff_mul_le unitsPerOne_pos

theorem of_placesOf? (h : placesOf? x = some p) :
    p ≤ enoughPlaces ∧ coefficientAt x p < coefficientBound ∧
      (p = enoughPlaces ∨ coefficientBound ≤ coefficientAt x (p + 1)) := by
  unfold placesOf? at h
  rw [List.range_eq_range'] at h
  obtain ⟨hp, hfits, hend⟩ := getLast?_takeWhile_range' h
  refine ⟨by omega, of_decide_eq_true hfits, hend.imp (by omega) fun hend => ?_⟩
  simpa using hend

theorem placesOf?_eq_none : placesOf? x = none ↔ coefficientBound ≤ coefficientAt x 0 := by
  unfold placesOf?
  rw [List.range_succ_eq_map, List.getLast?_eq_none_iff, List.takeWhile_cons]
  split
  next hfits => simpa using hfits
  next hlong => simpa using hlong

/-- The digits that the smaller number has at more places, which is where the distance of binary
numbers comes in. -/
theorem coefficient_lt_of_distance {s t k unit : ℕ} (hlt : s < t) (hdist : s < 2 ^ 53 * (t - s))
    (hlong : 2 ^ 96 * unit ≤ 10 * t) (hc : c * unit ≤ s * 10 ^ k) (hc' : t < (c' + 1) * unit) :
    9 * c < (9 * c' + 4) * 10 ^ k + 5 := by
  by_contra hle
  have hpow : 0 < 10 ^ k := Nat.pow_pos (by norm_num)
  have hs : (9 * c' + 4) * unit ≤ 9 * s := by
    refine Nat.le_of_mul_le_mul_right ?_ hpow
    calc (9 * c' + 4) * unit * 10 ^ k = (9 * c' + 4) * 10 ^ k * unit := by ring
      _ ≤ 9 * c * unit := Nat.mul_le_mul_right _ (by omega)
      _ = 9 * (c * unit) := by ring
      _ ≤ 9 * (s * 10 ^ k) := Nat.mul_le_mul_left _ hc
      _ = 9 * s * 10 ^ k := by ring
  have hclose : 9 * (t - s) < 5 * unit := by
    have hexpand : (9 * c' + 4) * unit + 5 * unit = 9 * ((c' + 1) * unit) := by ring
    omega
  omega

/-- If one place more is too much for the greater number, its decimal is not below that of a smaller
number, whatever the places of that. -/
theorem kept_le_of_lt {k : ℕ} (hlt : x.units.natAbs < y.units.natAbs)
    (hlong : coefficientBound ≤ coefficientAt y (q + 1)) :
    kept (coefficientAt x (q + k)) (q + k) ≤ kept (coefficientAt y q) q := by
  let unit := Binary64.unitsPerOne
  let s := x.units.natAbs * 10 ^ q
  let t := y.units.natAbs * 10 ^ q
  have hpow : 0 < 10 ^ q := Nat.pow_pos (by norm_num)
  have hst : s < t := Nat.mul_lt_mul_of_pos_right hlt hpow
  have hdist : s < 2 ^ 53 * (t - s) :=
    calc s < 2 ^ 53 * (y.units.natAbs - x.units.natAbs) * 10 ^ q :=
          Nat.mul_lt_mul_of_pos_right (Binary64.Finite.lt_mul_sub hlt) hpow
      _ = 2 ^ 53 * (t - s) := by rw [← Nat.sub_mul, Nat.mul_assoc]
  have hroom : 2 ^ 96 * unit ≤ 10 * t := by
    have hmul := le_coefficientAt.1 hlong
    rw [coefficientBound_eq, pow_succ 10 q, ← Nat.mul_assoc] at hmul
    exact hmul.trans_eq (Nat.mul_comm _ _)
  have hc : coefficientAt x (q + k) * unit ≤ s * 10 ^ k :=
    calc coefficientAt x (q + k) * unit ≤ x.units.natAbs * 10 ^ (q + k) :=
          le_coefficientAt.1 le_rfl
      _ = s * 10 ^ k := by rw [pow_add, ← Nat.mul_assoc]
  have hc' : t < (coefficientAt y q + 1) * unit := by
    rw [← not_le, ← le_coefficientAt]
    omega
  refine kept_le_of_more_places ?_ (coefficient_lt_of_distance hst hdist hroom hc hc')
  have hle : 2 ^ 96 * unit < 10 * (coefficientAt y q + 1) * unit := by
    rw [Nat.mul_assoc]
    omega
  have hlarge : 2 ^ 96 < 10 * (coefficientAt y q + 1) := Nat.lt_of_mul_lt_mul_right hle
  omega

/-- **Becoming a decimal keeps the order of sizes.** -/
theorem magnitude_mono (h : x.units.natAbs ≤ y.units.natAbs) (hp : placesOf? x = some p)
    (hq : placesOf? y = some q) : kept (coefficientAt x p) p ≤ kept (coefficientAt y q) q := by
  obtain ⟨hplaces, hfits, hend⟩ := of_placesOf? hp
  obtain ⟨hplaces', hfits', hend'⟩ := of_placesOf? hq
  have hqp : q ≤ p := by
    by_contra hlt
    have hlong : coefficientBound ≤ coefficientAt x (p + 1) := hend.resolve_left (by omega)
    have hle : coefficientAt x (p + 1) ≤ coefficientAt y q := coefficientAt_mono h (by omega)
    omega
  rcases hqp.eq_or_lt with rfl | hlt
  · exact kept_mono (coefficientAt_mono h le_rfl)
  · -- at different numbers of places the numbers differ
    have hlong : coefficientBound ≤ coefficientAt y (q + 1) := hend'.resolve_left (by omega)
    have hunits : x.units.natAbs < y.units.natAbs := by
      by_contra hge
      have hle : coefficientAt y (q + 1) ≤ coefficientAt x p :=
        coefficientAt_mono (by omega) hlt
      omega
    obtain ⟨k, rfl⟩ := Nat.exists_eq_add_of_le hqp
    exact kept_le_of_lt hunits hlong

/-! ### The order of numbers and of their decimals -/

theorem toRat_of_placesOf? {d : Decimal96} (hd : ofFinite? x = some d) :
    ∃ p, placesOf? x = some p ∧
      d.toRat = if x.negative then -kept (coefficientAt x p) p else kept (coefficientAt x p) p := by
  obtain ⟨p, hp, rfl⟩ := Option.map_eq_some_iff.1 hd
  exact ⟨p, hp, by rw [toRat, negative_trim, magnitude_trim]⟩

/-- The bound of coefficients, counted in the least positive binary number. -/
def unitsBound : ℕ := coefficientBound * Binary64.unitsPerOne

theorem unitsBound_pos : 0 < unitsBound := Nat.mul_pos (by decide) unitsPerOne_pos

/-- Only numbers from the bound of coefficients on have no decimal. -/
theorem ofFinite?_eq_none : ofFinite? x = none ↔ unitsBound ≤ x.units.natAbs := by
  rw [ofFinite?, Option.map_eq_none_iff, placesOf?_eq_none, le_coefficientAt, pow_zero, mul_one]
  rfl

/-- **Becoming a decimal keeps the order.** A number that is not greater than another one has a
decimal that is not greater than that of the other. -/
theorem toRat_mono {d e : Decimal96} (h : x.units ≤ y.units) (hd : ofFinite? x = some d)
    (he : ofFinite? y = some e) : d.toRat ≤ e.toRat := by
  obtain ⟨p, hp, hdp⟩ := toRat_of_placesOf? hd
  obtain ⟨q, hq, heq⟩ := toRat_of_placesOf? he
  rw [hdp, heq]
  cases hx : x.negative <;> cases hy : y.negative <;>
    simp only [Bool.false_eq_true, if_true, if_false]
  · have := Binary64.Finite.units_nonneg hx
    exact magnitude_mono (by omega) hp hq
  · have := Binary64.Finite.units_nonneg hx
    have := Binary64.Finite.units_nonpos hy
    -- both numbers are zero
    rw [coefficientAt_of_zero (by omega), coefficientAt_of_zero (by omega), kept_zero, kept_zero,
      neg_zero]
  · exact (neg_nonpos.2 (kept_nonneg _ _)).trans (kept_nonneg _ _)
  · have := Binary64.Finite.units_nonpos hx
    have := Binary64.Finite.units_nonpos hy
    exact neg_le_neg (magnitude_mono (by omega) hq hp)

end Decimal96
end NestedQuery
