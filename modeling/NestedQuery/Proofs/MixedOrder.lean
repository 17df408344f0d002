/-
# Whole numbers and binary numbers

A whole number is compared with the decimal of a binary one, which differs
from it in the last digits. Rounding places away leads to a whole number only
from close by (`Decimal96.deviation_le_of_kept`), and it leads from a whole
number to nothing else (`Decimal96.kept_whole`), so it never leads past one.
The order is therefore never the wrong way round. But it is a tie if the
decimal is the whole number and the binary number is not.

Key definition: `Binary64.Finite.toRat`.
Key theorems: `Decimal96.kept_mul_pow`, `Decimal96.deviation_le_of_kept`,
`Value.order_integer_float`.
-/
import NestedQuery.Proofs.ValueOrder

namespace NestedQuery

namespace Binary64.Finite

/-- A finite number as it is. -/
def toRat (x : Finite) : ℚ := x.units / unitsPerOne

theorem abs_toRat (x : Finite) : |x.toRat| = x.units.natAbs / unitsPerOne := by
  rw [toRat, abs_div, Nat.abs_cast, Nat.cast_natAbs, Int.cast_abs]

variable {x : Finite} {m : ℤ}

theorem le_toRat_iff : m ≤ x.toRat ↔ m * unitsPerOne ≤ x.units := by
  have hunit : (0 : ℚ) < unitsPerOne := by exact_mod_cast Decimal96.unitsPerOne_pos
  rw [toRat, le_div_iff₀ hunit]
  exact_mod_cast Iff.rfl

theorem toRat_le_iff : x.toRat ≤ m ↔ x.units ≤ m * unitsPerOne := by
  have hunit : (0 : ℚ) < unitsPerOne := by exact_mod_cast Decimal96.unitsPerOne_pos
  rw [toRat, div_le_iff₀ hunit]
  exact_mod_cast Iff.rfl

end Binary64.Finite

namespace Decimal96

variable {c n p : ℕ}

/-! ### Decimals that are whole numbers -/

/-- Zeros at the end are rounded away without a trace. -/
theorem kept_mul_pow (c p k : ℕ) : kept (c * 10 ^ k) (p + k) = kept c p := by
  induction k with
  | zero => simp
  | succ k ih =>
    have hmul : c * 10 ^ (k + 1) = 10 * (c * 10 ^ k) := by ring
    rw [← Nat.add_assoc, hmul]
    by_cases hf : Fits (10 * (c * 10 ^ k)) (p + k + 1)
    · have hfits : Fits (c * 10 ^ k) (p + k) := ⟨(Nat.le_succ _).trans hf.1, by have := hf.2; omega⟩
      rw [kept_of_fits hf, ← ih, kept_of_fits hfits]
      push_cast
      rw [pow_succ, mul_comm (10 ^ (p + k) : ℚ), mul_div_mul_left _ _ (by norm_num)]
    · by_cases hc : 10 * (c * 10 ^ k) < 10
      · have hzero : c * 10 ^ k = 0 := by omega
        rw [kept_of_small hf hc, ← ih, hzero, kept_zero]
      · have hround : divHalfUp (10 * (c * 10 ^ k)) 10 = c * 10 ^ k := by
          unfold divHalfUp
          omega
        rw [kept_succ hf (by omega), hround, ih]

/-- A whole number stays what it is. -/
theorem kept_whole (n p : ℕ) : kept (n * 10 ^ p) p = n := by
  have h := kept_mul_pow n 0 p
  rwa [Nat.zero_add, kept_no_places] at h

/-- Rounding leads to a whole number from the number itself or from so close that the deviation and
one more are less than its part in `2 ^ 49`. -/
theorem deviation_le_of_kept (h : kept c p = n) (hn : n ≠ 0) :
    c = n * 10 ^ p ∨ 2 ^ 49 * (((c : ℤ) - (n * 10 ^ p : ℕ)).natAbs + 1) ≤ n * 10 ^ p := by
  induction p generalizing c with
  | zero =>
    rw [kept_no_places] at h
    exact .inl (by simpa using h)
  | succ p ih =>
    by_cases hf : Fits c (p + 1)
    · rw [kept_of_fits hf, div_eq_iff (by positivity)] at h
      exact .inl (by exact_mod_cast h)
    · by_cases hc : c < 10
      · rw [kept_of_small hf hc] at h
        exact absurd (by exact_mod_cast h.symm) hn
      · rw [kept_succ hf (by omega)] at h
        have hclose := ih h
        have hmul : n * 10 ^ (p + 1) = 10 * (n * 10 ^ p) := by ring
        -- what is rounded is long, or has more places than are kept
        have hlong : 2 ^ 52 ≤ c ∨ 2 ^ 52 ≤ 10 * (n * 10 ^ p) := by
          by_contra hshort
          refine hf ⟨?_, by rw [trimBound_eq]; omega⟩
          by_contra hp
          have hpow : 10 ^ 28 ≤ 10 ^ p := Nat.pow_le_pow_right (by norm_num) (by
            unfold greatestPlaces at hp
            omega)
          have hle : 10 ^ p ≤ n * 10 ^ p := Nat.le_mul_of_pos_left _ (Nat.pos_of_ne_zero hn)
          omega
        rw [hmul]
        unfold divHalfUp at hclose
        generalize n * 10 ^ p = m at hclose hlong ⊢
        omega

/-! ### Binary numbers close to whole ones -/

variable {x : Binary64.Finite} {d : Decimal96} {m : ℤ}

/-- The coefficient to begin with is what stands before the point. -/
theorem coefficientAt_le (x : Binary64.Finite) (p : ℕ) :
    (coefficientAt x p : ℚ) ≤ |x.toRat| * 10 ^ p := by
  have hunit : (0 : ℚ) < Binary64.unitsPerOne := by exact_mod_cast unitsPerOne_pos
  rw [x.abs_toRat, div_mul_eq_mul_div, le_div_iff₀ hunit]
  exact_mod_cast le_coefficientAt.1 (le_refl (coefficientAt x p))

theorem lt_coefficientAt_succ (x : Binary64.Finite) (p : ℕ) :
    |x.toRat| * 10 ^ p < coefficientAt x p + 1 := by
  have hunit : (0 : ℚ) < Binary64.unitsPerOne := by exact_mod_cast unitsPerOne_pos
  have hlt : ¬ coefficientAt x p + 1 ≤ coefficientAt x p := by omega
  rw [le_coefficientAt, not_le] at hlt
  rw [x.abs_toRat, div_mul_eq_mul_div, div_lt_iff₀ hunit]
  exact_mod_cast hlt

/-- It is long, unless it has more places than are ever kept. -/
theorem long_of_placesOf? (h : placesOf? x = some p) :
    p = enoughPlaces ∨ 2 ^ 49 ≤ coefficientAt x p := by
  obtain ⟨-, -, hend⟩ := of_placesOf? h
  refine hend.imp_right fun hlong => ?_
  -- one place more does not make more than one digit more
  have hnext : (coefficientAt x (p + 1) : ℚ) < 10 * (coefficientAt x p + 1) :=
    calc (coefficientAt x (p + 1) : ℚ) ≤ |x.toRat| * 10 ^ (p + 1) := coefficientAt_le x (p + 1)
      _ = 10 * (|x.toRat| * 10 ^ p) := by ring
      _ < 10 * (coefficientAt x p + 1) := by
          have := lt_coefficientAt_succ x p
          gcongr
  have hnextN : coefficientAt x (p + 1) < 10 * (coefficientAt x p + 1) := by exact_mod_cast hnext
  rw [coefficientBound_eq] at hlong
  omega

/-- A binary number whose decimal is a whole number other than zero is close to that. -/
theorem distance_le_of_kept (hp : placesOf? x = some p) (h : kept (coefficientAt x p) p = n)
    (hn : n ≠ 0) : 2 ^ 49 * |(|x.toRat| - n)| ≤ n := by
  let c := coefficientAt x p
  have hclose : 2 ^ 49 * (((c : ℤ) - (n * 10 ^ p : ℕ)).natAbs + 1) ≤ n * 10 ^ p := by
    rcases deviation_le_of_kept h hn with hexact | hclose
    · -- nothing was rounded, but the coefficient is long
      have hlong : 2 ^ 49 ≤ n * 10 ^ p := by
        rcases long_of_placesOf? hp with rfl | hlong
        · calc 2 ^ 49 ≤ 10 ^ enoughPlaces := by decide +kernel
            _ ≤ n * 10 ^ enoughPlaces := Nat.le_mul_of_pos_left _ (Nat.pos_of_ne_zero hn)
        · exact hexact ▸ hlong
      have hzero : (c : ℤ) - (n * 10 ^ p : ℕ) = 0 := by omega
      rw [hzero]
      simpa using hlong
    · exact hclose
  have hcloseQ : 2 ^ 49 * (|(c : ℚ) - n * 10 ^ p| + 1) ≤ n * 10 ^ p := by
    have hcast := (Nat.cast_le (α := ℚ)).2 hclose
    push_cast [Nat.cast_natAbs] at hcast
    exact hcast
  have hdeviation : |(|x.toRat| * 10 ^ p - n * 10 ^ p)| ≤ |(c : ℚ) - n * 10 ^ p| + 1 := by
    have hlow := coefficientAt_le x p
    have hhigh := lt_coefficientAt_succ x p
    have hfraction : |(|x.toRat| * 10 ^ p - c)| ≤ 1 := abs_le.2 ⟨by linarith, by linarith⟩
    have htriangle := abs_sub_le (|x.toRat| * 10 ^ p) c (n * 10 ^ p)
    linarith
  have hpow : (0 : ℚ) < 10 ^ p := by positivity
  refine le_of_mul_le_mul_right ?_ hpow
  calc 2 ^ 49 * |(|x.toRat| - n)| * 10 ^ p = 2 ^ 49 * |(|x.toRat| * 10 ^ p - n * 10 ^ p)| := by
        rw [← sub_mul, abs_mul, abs_of_pos hpow, mul_assoc]
    _ ≤ 2 ^ 49 * (|(c : ℚ) - n * 10 ^ p| + 1) := by gcongr
    _ ≤ n * 10 ^ p := hcloseQ

/-- A binary number whose decimal is zero has no digits in the first 28 places. -/
theorem abs_toRat_lt_of_kept (hp : placesOf? x = some p) (h : kept (coefficientAt x p) p = 0) :
    |x.toRat| < 1 / 10 ^ 28 := by
  have hplaces : 28 ≤ p := by
    by_contra hfew
    have hlong : 2 ^ 49 ≤ coefficientAt x p :=
      (long_of_placesOf? hp).resolve_left (by unfold enoughPlaces; omega)
    have hone : kept 1 p ≤ kept (coefficientAt x p) p := kept_mono (by omega)
    have hfits : Fits 1 p := ⟨by unfold greatestPlaces; omega, by decide⟩
    rw [h, kept_of_fits hfits] at hone
    have hpos : (0 : ℚ) < (1 : ℕ) / 10 ^ p := by positivity
    linarith
  obtain ⟨k, rfl⟩ := Nat.exists_eq_add_of_le hplaces
  have hshort : coefficientAt x (28 + k) < 10 ^ k := by
    by_contra hle
    have hone : kept (1 * 10 ^ k) (28 + k) ≤ kept (coefficientAt x (28 + k)) (28 + k) :=
      kept_mono (by omega)
    have hfits : Fits 1 28 := ⟨by decide, by decide⟩
    rw [h, kept_mul_pow, kept_of_fits hfits] at hone
    norm_num at hone
  have hlt := lt_coefficientAt_succ x (28 + k)
  have hle : (coefficientAt x (28 + k) + 1 : ℚ) ≤ 10 ^ k := by exact_mod_cast hshort
  have hpow : (0 : ℚ) < 10 ^ k := by positivity
  rw [lt_div_iff₀ (by positivity)]
  refine lt_of_mul_lt_mul_right ?_ hpow.le
  calc |x.toRat| * 10 ^ 28 * 10 ^ k = |x.toRat| * 10 ^ (28 + k) := by rw [pow_add, mul_assoc]
    _ < 1 * 10 ^ k := by linarith

/-! ### No whole number stands between a number and its decimal -/

theorem le_kept_of_le (h : m ≤ |x.toRat|) (p : ℕ) : m ≤ kept (coefficientAt x p) p := by
  obtain hneg | ⟨n, rfl⟩ := (lt_or_ge m 0).imp_right Int.eq_ofNat_of_zero_le
  · have hlt : (m : ℚ) < 0 := by exact_mod_cast hneg
    exact hlt.le.trans (kept_nonneg _ _)
  · have hlt : (n * 10 ^ p : ℚ) < coefficientAt x p + 1 :=
      calc (n * 10 ^ p : ℚ) ≤ |x.toRat| * 10 ^ p := by
            gcongr
            exact_mod_cast h
        _ < coefficientAt x p + 1 := lt_coefficientAt_succ x p
    have hle : n * 10 ^ p < coefficientAt x p + 1 := by exact_mod_cast hlt
    rw [Int.cast_natCast, ← kept_whole n p]
    exact kept_mono (by omega)

theorem kept_le_of_le (h : |x.toRat| ≤ m) (p : ℕ) : kept (coefficientAt x p) p ≤ m := by
  have hnonneg : 0 ≤ m := by exact_mod_cast (abs_nonneg _).trans h
  obtain ⟨n, rfl⟩ := Int.eq_ofNat_of_zero_le hnonneg
  have hle : (coefficientAt x p : ℚ) ≤ n * 10 ^ p :=
    calc (coefficientAt x p : ℚ) ≤ |x.toRat| * 10 ^ p := coefficientAt_le x p
      _ ≤ n * 10 ^ p := by
          gcongr
          exact_mod_cast h
  have hleN : coefficientAt x p ≤ n * 10 ^ p := by exact_mod_cast hle
  rw [Int.cast_natCast, ← kept_whole n p]
  exact kept_mono hleN

/-- A number and its decimal are on the same side of zero. -/
theorem toRat_cases (hd : ofFinite? x = some d) :
    ∃ p, placesOf? x = some p ∧
      ((x.toRat = |x.toRat| ∧ d.toRat = kept (coefficientAt x p) p) ∨
        (x.toRat = -|x.toRat| ∧ d.toRat = -kept (coefficientAt x p) p)) := by
  obtain ⟨p, hp, hrat⟩ := toRat_of_placesOf? hd
  have hunit : (0 : ℚ) ≤ Binary64.unitsPerOne := Nat.cast_nonneg _
  refine ⟨p, hp, ?_⟩
  cases hs : x.negative with
  | false =>
    have hnonneg : (0 : ℚ) ≤ x.units := by exact_mod_cast Binary64.Finite.units_nonneg hs
    exact .inl ⟨(abs_of_nonneg (div_nonneg hnonneg hunit)).symm, by simp [hrat, hs]⟩
  | true =>
    have hnonpos : (x.units : ℚ) ≤ 0 := by exact_mod_cast Binary64.Finite.units_nonpos hs
    have habs : |x.toRat| = -x.toRat := abs_of_nonpos (div_nonpos_of_nonpos_of_nonneg hnonpos hunit)
    exact .inr ⟨by rw [habs, neg_neg], by simp [hrat, hs]⟩

theorem le_toRat_of_le (hd : ofFinite? x = some d) (h : m ≤ x.toRat) : m ≤ d.toRat := by
  obtain ⟨p, -, ⟨hx, hd⟩ | ⟨hx, hd⟩⟩ := toRat_cases hd
  · rw [hd]
    exact le_kept_of_le (hx ▸ h) p
  · have hle := kept_le_of_le (m := -m) (x := x) (by push_cast; linarith) p
    push_cast at hle
    linarith

theorem toRat_le_of_le (hd : ofFinite? x = some d) (h : x.toRat ≤ m) : d.toRat ≤ m := by
  obtain ⟨p, -, ⟨hx, hd⟩ | ⟨hx, hd⟩⟩ := toRat_cases hd
  · rw [hd]
    exact kept_le_of_le (hx ▸ h) p
  · have hle := le_kept_of_le (m := -m) (x := x) (by push_cast; linarith) p
    push_cast at hle
    linarith

/-- A number whose decimal is a whole number is close to that. -/
theorem distance_le_of_toRat_eq (hd : ofFinite? x = some d) (h : d.toRat = m) :
    (m = 0 ∧ |x.toRat| < 1 / 10 ^ 28) ∨ 2 ^ 49 * |x.toRat - m| ≤ |(m : ℚ)| := by
  obtain ⟨p, hp, hcases⟩ := toRat_cases hd
  have hkept : kept (coefficientAt x p) p = m.natAbs ∧
      |x.toRat - m| = |(|x.toRat| - m.natAbs)| := by
    have hnonneg := kept_nonneg (coefficientAt x p) p
    rw [Nat.cast_natAbs, Int.cast_abs]
    rcases hcases with ⟨hx, hd⟩ | ⟨hx, hd⟩
    · rw [hd] at h
      rw [h] at hnonneg ⊢
      rw [abs_of_nonneg hnonneg, ← hx]
      exact ⟨rfl, rfl⟩
    · have hneg : kept (coefficientAt x p) p = -m := by rw [← h, hd, neg_neg]
      have hnonpos : (m : ℚ) ≤ 0 := by linarith
      have habs : |x.toRat| = -x.toRat := by linarith
      rw [hneg, abs_of_nonpos hnonpos, habs, neg_sub_neg, abs_sub_comm]
      exact ⟨rfl, rfl⟩
  by_cases hm : m = 0
  · rw [hm] at hkept
    exact .inl ⟨hm, abs_toRat_lt_of_kept hp (by simpa using hkept.1)⟩
  · refine .inr ?_
    have hclose := distance_le_of_kept hp hkept.1 (Int.natAbs_ne_zero.2 hm)
    rwa [← hkept.2, Nat.cast_natAbs, Int.cast_abs] at hclose

end Decimal96

namespace Binary64

variable {x : Finite} {m : ℤ}

theorem unitsBound_eq : (Decimal96.unitsBound : ℤ) = 2 ^ 96 * unitsPerOne := by
  rw [Decimal96.unitsBound, Decimal96.coefficientBound_eq]
  push_cast
  rfl

/-- No whole number stands between a number and what it is rounded to, unless the number is too
great to have a decimal. -/
theorem le_rounded_of_le (hm : -(2 ^ 96) < m) (h : m ≤ x.toRat) :
    ((m : ℚ) : WithTop ℚ) ≤ (finite x).rounded := by
  obtain ⟨d, hd, hr, -⟩ | ⟨-, hr, -⟩ | ⟨-, -, hx⟩ := rounded_finite x
  · rw [hr, WithBot.coe_le_coe, WithTop.coe_le_coe]
    exact Decimal96.le_toRat_of_le hd h
  · simp [hr]
  · have hle : m * unitsPerOne ≤ -(2 ^ 96) * unitsPerOne := by
      rw [neg_mul, ← unitsBound_eq]
      exact (Finite.le_toRat_iff.1 h).trans hx
    have hgreat := le_of_mul_le_mul_right hle (by exact_mod_cast Decimal96.unitsPerOne_pos)
    omega

theorem rounded_le_of_le (hm : m < 2 ^ 96) (h : x.toRat ≤ m) :
    (finite x).rounded ≤ ((m : ℚ) : WithTop ℚ) := by
  obtain ⟨d, hd, hr, -⟩ | ⟨-, -, hx⟩ | ⟨-, hr, -⟩ := rounded_finite x
  · rw [hr, WithBot.coe_le_coe, WithTop.coe_le_coe]
    exact Decimal96.toRat_le_of_le hd h
  · have hle : 2 ^ 96 * unitsPerOne ≤ m * unitsPerOne := by
      rw [← unitsBound_eq]
      exact hx.trans (Finite.toRat_le_iff.1 h)
    have hgreat := le_of_mul_le_mul_right hle (by exact_mod_cast Decimal96.unitsPerOne_pos)
    omega
  · simp [hr]

end Binary64

namespace Value

variable {n : Int64} {x : Binary64.Finite}

theorem finite_ne_nan (x : Binary64.Finite) : Binary64.finite x ≠ .nan := nofun

theorem mixedOrder_isLE_of_le (h : n.toInt ≤ x.toRat) :
    (mixedOrder n.toInt (.finite x)).isLE := by
  have hlow := n.le_toInt
  exact (mixedOrder_isLE (finite_ne_nan x)).2 (Binary64.le_rounded_of_le (by omega) h)

theorem mixedOrder_isGE_of_le (h : x.toRat ≤ n.toInt) :
    (mixedOrder n.toInt (.finite x)).isGE := by
  have hhigh := n.toInt_lt
  exact (mixedOrder_isGE (finite_ne_nan x)).2 (Binary64.rounded_le_of_le (by omega) h)

/-- They tie if the whole number is the decimal of the other one. -/
theorem mixedOrder_eq_eq_iff :
    mixedOrder n.toInt (.finite x) = .eq ↔
      (Binary64.finite x).rounded = ((n.toInt : ℚ) : WithTop ℚ) := by
  have htie : mixedOrder n.toInt (.finite x) = .eq ↔
      (mixedOrder n.toInt (.finite x)).isGE ∧ (mixedOrder n.toInt (.finite x)).isLE := by
    cases mixedOrder n.toInt (.finite x) <;> decide
  rw [htie, mixedOrder_isLE (finite_ne_nan x), mixedOrder_isGE (finite_ne_nan x), le_antisymm_iff]

/-- If they do not tie, they are in the order of the numbers. -/
theorem mixedOrder_eq_compare_or (n : Int64) (x : Binary64.Finite) :
    mixedOrder n.toInt (.finite x) = compare (n.toInt : ℚ) x.toRat ∨
      mixedOrder n.toInt (.finite x) = .eq := by
  rcases lt_trichotomy (n.toInt : ℚ) x.toRat with hlt | heq | hgt
  · rw [compare_lt_iff_lt.2 hlt]
    exact Ordering.isLE_iff_eq_lt_or_eq_eq.1 (mixedOrder_isLE_of_le hlt.le)
  · refine .inr (mixedOrder_eq_eq_iff.2 (le_antisymm ?_ ?_))
    · exact (mixedOrder_isGE (finite_ne_nan x)).1 (mixedOrder_isGE_of_le heq.ge)
    · exact (mixedOrder_isLE (finite_ne_nan x)).1 (mixedOrder_isLE_of_le heq.le)
  · rw [compare_gt_iff_gt.2 hgt]
    exact Ordering.isGE_iff_eq_gt_or_eq_eq.1 (mixedOrder_isGE_of_le hgt.le)

/-- They are in the order of the numbers unless the whole number is the decimal of the other one
but not the other one itself. -/
theorem mixedOrder_eq_compare_iff :
    mixedOrder n.toInt (.finite x) = compare (n.toInt : ℚ) x.toRat ↔
      (x.toRat = n.toInt ∨ (Binary64.finite x).rounded ≠ ((n.toInt : ℚ) : WithTop ℚ)) := by
  rw [Ne, ← mixedOrder_eq_eq_iff]
  constructor
  · intro h
    refine or_not_of_imp fun htie => ?_
    rw [h, compare_eq_iff_eq] at htie
    exact htie.symm
  · rintro (heq | htie)
    · rcases mixedOrder_eq_compare_or n x with h | h
      · exact h
      · rw [h, eq_comm, compare_eq_iff_eq, heq]
    · exact (mixedOrder_eq_compare_or n x).resolve_right htie

/-- Whole numbers keep their place among whole numbers. -/
theorem mixedOrder_eq_compare_of_whole {m : ℤ} (h : x.toRat = m) :
    mixedOrder n.toInt (.finite x) = compare (n.toInt : ℚ) x.toRat := by
  have hlow := n.le_toInt
  have hhigh := n.toInt_lt
  refine mixedOrder_eq_compare_iff.2 (or_not_of_imp fun htie => ?_)
  rw [h]
  have hle : ¬ n.toInt < m := fun hlt => by
    have hrounded := Binary64.le_rounded_of_le (by omega) h.ge
    rw [htie, WithBot.coe_le_coe, WithTop.coe_le_coe] at hrounded
    exact absurd hlt (not_lt.2 (by exact_mod_cast hrounded))
  have hge : ¬ m < n.toInt := fun hlt => by
    have hrounded := Binary64.rounded_le_of_le (by omega) h.le
    rw [htie, WithBot.coe_le_coe, WithTop.coe_le_coe] at hrounded
    exact absurd hlt (not_lt.2 (by exact_mod_cast hrounded))
  exact_mod_cast le_antisymm (not_lt.1 hle) (not_lt.1 hge)

/-- **The order of a whole number and a binary one is exact but for ties of numbers that are close
to each other.** It is never the wrong way round, and it is exact if the binary number is whole. It
is not exact if, and only if, the whole number is the decimal of the binary one but not that number
itself. Then the two differ by at most one part in `2 ^ 49`, or, if the whole number is zero, by
less than the last place that decimals have. -/
theorem order_integer_float (n : Int64) (x : Binary64.Finite) :
    let found := (integer n).order (float (.finite x))
    let exact := compare (n.toInt : ℚ) x.toRat
    (float (.finite x)).order (integer n) = found.swap ∧
      (found = exact ∨ found = .eq) ∧
      ((∃ m : ℤ, x.toRat = m) → found = exact) ∧
      (found = exact ↔
        x.toRat = n.toInt ∨ (Binary64.finite x).rounded ≠ ((n.toInt : ℚ) : WithTop ℚ)) ∧
      (found ≠ exact → (n.toInt = 0 ∧ |x.toRat| < 1 / 10 ^ 28) ∨
        2 ^ 49 * |x.toRat - n.toInt| ≤ |(n.toInt : ℚ)|) := by
  refine ⟨rfl, mixedOrder_eq_compare_or n x, fun ⟨m, hm⟩ => mixedOrder_eq_compare_of_whole hm,
    mixedOrder_eq_compare_iff, fun h => ?_⟩
  have htie := mixedOrder_eq_eq_iff.1 ((mixedOrder_eq_compare_or n x).resolve_left h)
  obtain ⟨d, hd, hr, -⟩ | ⟨-, hr, -⟩ | ⟨-, hr, -⟩ := Binary64.rounded_finite x
  · rw [hr, WithBot.coe_inj, WithTop.coe_inj] at htie
    exact Decimal96.distance_le_of_toRat_eq hd htie
  · rw [hr] at htie
    simp at htie
  · rw [hr] at htie
    simp at htie

/-- The least number above one ties with one, which it is close to, and two is in its place. -/
theorem order_integer_float_aboveOne :
    let aboveOne : Binary64.Finite := ⟨false, Nat.pow 2 52 + 1, -52, by decide⟩
    let two : Binary64.Finite := ⟨false, Nat.pow 2 52, -51, by decide⟩
    (integer 1).order (float (.finite aboveOne)) ≠ compare ((1 : Int64).toInt : ℚ) aboveOne.toRat ∧
      ((1 : Int64).toInt = 0 ∧ |aboveOne.toRat| < 1 / 10 ^ 28 ∨
        2 ^ 49 * |aboveOne.toRat - (1 : Int64).toInt| ≤ |((1 : Int64).toInt : ℚ)|) ∧
      two.toRat = (2 : ℤ) ∧
      (integer 1).order (float (.finite two)) = compare ((1 : Int64).toInt : ℚ) two.toRat := by
  intro aboveOne two
  have hinexact : (integer 1).order (float (.finite aboveOne)) ≠
      compare ((1 : Int64).toInt : ℚ) aboveOne.toRat := by decide +kernel
  have htwo : two.toRat = (2 : ℤ) := by decide +kernel
  obtain ⟨-, -, -, -, hclose⟩ := order_integer_float 1 aboveOne
  obtain ⟨-, -, hwhole, -⟩ := order_integer_float 1 two
  exact ⟨hinexact, hclose hinexact, htwo, hwhole ⟨2, htwo⟩⟩

/-- One is before the least number above one, but the two tie. -/
theorem order_integer_float_inexact :
    let aboveOne : Binary64.Finite := ⟨false, Nat.pow 2 52 + 1, -52, by decide⟩
    compare ((1 : Int64).toInt : ℚ) aboveOne.toRat = .lt ∧
      (integer 1).order (float (.finite aboveOne)) = .eq := by
  decide +kernel

end Value

end NestedQuery
