/-
# The order of values

Sorting relies on an order of values that is total and transitive. It is
total, and it is transitive across kinds and within each kind but that of
numbers. Numbers are ordered in three ways: two whole numbers as integers, two
binary numbers as what they are, and one of each by the decimal of the latter.
Becoming a decimal keeps the order of binary numbers (`Binary64.rounded_mono`),
but not their differences. So two of them that differ tie with one whole number
if that is the decimal of both, and there, and only there, transitivity ends
(`Value.order_swap_and_isLE_trans_iff`).

Key definitions: `Binary64.place`, `Binary64.rounded`, `Value.FallTogether`.
Key theorems: `Binary64.rounded_mono`, `Value.mixedOrder_isLE`,
`Value.order_isLE_trans_of_number`, `Value.order_swap_and_isLE_trans_iff`.
-/
import Mathlib.Data.Int.ConditionallyCompleteOrder
import NestedQuery.Proofs.Rounding
import NestedQuery.Proofs.Shape

namespace NestedQuery

/-! ### Whole numbers as binary numbers -/

namespace Binary64

theorem le_divToEven (num den : ℕ) : num / den ≤ divToEven num den := by
  unfold divToEven
  dsimp only
  split <;> omega

theorem divToEven_le (num den : ℕ) : divToEven num den ≤ num / den + 1 := by
  unfold divToEven
  dsimp only
  split <;> omega

theorem divToEven_one (num : ℕ) : divToEven num 1 = num := by
  simp [divToEven, Nat.mod_one]

theorem exponentOf_one {n : ℕ} (h : n ≠ 0) : exponentOf n 1 = (n.log2 : ℤ) - 52 := by
  have hlog : ¬ n < 1 * Nat.pow 2 n.log2 := by
    simpa using Nat.log2_self_le h
  have hone : Nat.log2 1 = 0 := rfl
  simp only [exponentOf, hone, Nat.cast_zero, sub_zero, sub_add_cancel, Int.toNat_natCast, hlog,
    Int.natCast_nonneg, if_true, if_false]
  omega

/-- Scaled to 53 bits and rounded, a whole number is a mantissa or the number above. -/
theorem mantissa_bounds {n : ℕ} {e : ℤ} (h : n ≠ 0) (he : (n.log2 : ℤ) = 52 + e) :
    let mantissa :=
      if 0 ≤ e then divToEven n (Nat.pow 2 e.toNat) else divToEven (n * Nat.pow 2 (-e).toNat) 1
    2 ^ 52 ≤ mantissa ∧ mantissa ≤ 2 ^ 53 := by
  have hlow : 2 ^ n.log2 ≤ n := Nat.log2_self_le h
  have hhigh : n < 2 ^ (n.log2 + 1) := Nat.lt_log2_self
  dsimp only
  split
  next hexp =>
    have hpow : 0 < 2 ^ e.toNat := Nat.two_pow_pos _
    rw [show n.log2 = 52 + e.toNat by omega, Nat.pow_add] at hlow
    rw [show n.log2 + 1 = 53 + e.toNat by omega, Nat.pow_add] at hhigh
    have hfloor : 2 ^ 52 ≤ n / 2 ^ e.toNat := (Nat.le_div_iff_mul_le hpow).2 hlow
    have hceil : n / 2 ^ e.toNat < 2 ^ 53 := (Nat.div_lt_iff_lt_mul hpow).2 hhigh
    exact ⟨hfloor.trans (le_divToEven _ _), (divToEven_le _ _).trans hceil⟩
  next hexp =>
    rw [divToEven_one]
    constructor
    · calc 2 ^ 52 = 2 ^ n.log2 * 2 ^ (-e).toNat := by rw [← Nat.pow_add]; congr 1; omega
        _ ≤ n * Nat.pow 2 (-e).toNat := Nat.mul_le_mul_right _ hlow
    · calc n * Nat.pow 2 (-e).toNat ≤ 2 ^ (n.log2 + 1) * 2 ^ (-e).toNat :=
          Nat.mul_le_mul_right _ hhigh.le
        _ = 2 ^ 53 := by rw [← Nat.pow_add]; congr 1; omega

/-- A mantissa or the number above makes a number if the exponent is not too great. -/
theorem exists_finite_of_mantissa (negative : Bool) {m : ℕ} {e : ℤ} (hlow : 2 ^ 52 ≤ m)
    (hhigh : m ≤ 2 ^ 53) (he : -1074 ≤ e) (he' : e ≤ 970) :
    ∃ y : Finite, y.exponent ≤ e + 1 ∧
      (if m = Nat.pow 2 53 then ofParts negative (Nat.pow 2 52) (e + 1)
        else ofParts negative m e) = .finite y := by
  split
  next =>
    have hcanonical : Canonical (Nat.pow 2 52) (e + 1) :=
      ⟨by decide, by omega, by omega, .inl le_rfl⟩
    exact ⟨⟨negative, _, _, hcanonical⟩, le_rfl, dif_pos hcanonical⟩
  next hne =>
    have hcanonical : Canonical m e := ⟨lt_of_le_of_ne hhigh hne, he, by omega, .inl hlow⟩
    exact ⟨⟨negative, _, _, hcanonical⟩, by simp, dif_pos hcanonical⟩

/-- A whole number of 64 bits is finite as a binary number. -/
theorem exists_finite_ofInt {n : ℤ} (hn : n.natAbs < 2 ^ 64) :
    ∃ y : Finite, y.exponent ≤ 12 ∧ ofInt n = .finite y := by
  unfold ofInt ofRatio
  split
  next => exact ⟨_, by simp, rfl⟩
  next hzero =>
    have hlog : n.natAbs.log2 < 64 := (Nat.log2_lt hzero).2 hn
    obtain ⟨hlow, hhigh⟩ := mantissa_bounds hzero (e := (n.natAbs.log2 : ℤ) - 52) (by omega)
    obtain ⟨y, hexp, hy⟩ :=
      exists_finite_of_mantissa (decide (n < 0)) (e := (n.natAbs.log2 : ℤ) - 52) hlow hhigh
        (by omega) (by omega)
    dsimp only
    rw [exponentOf_one hzero, one_mul]
    exact ⟨y, by omega, hy⟩

/-- With such an exponent a number is below those that have no decimal. -/
theorem natAbs_units_lt {y : Finite} (h : y.exponent ≤ 12) :
    y.units.natAbs < Decimal96.unitsBound := by
  rw [Finite.natAbs_units]
  calc y.mantissa * 2 ^ (y.exponent + 1074).toNat ≤ 2 ^ 53 * 2 ^ 1086 :=
        Nat.mul_le_mul y.canonical.1.le (Nat.pow_le_pow_right (by norm_num) (by omega))
    _ < Decimal96.unitsBound := by decide +kernel

/-! ### The order of binary numbers -/

/-- The end of the numbers on this side. -/
def endpoint {α : Type} (negative : Bool) : WithBot (WithTop α) := if negative then ⊥ else ⊤

/-- The place of a number among the multiples of the least positive one and the infinities. -/
def place : Binary64 → WithBot (WithTop ℤ)
  | finite x => (x.units : WithTop ℤ)
  | infinity negative => endpoint negative
  | nan => ⊥

variable {x y z : Binary64}

theorem order_isLE (hx : x ≠ nan) (hy : y ≠ nan) : (x.order y).isLE ↔ x.place ≤ y.place := by
  cases x with
  | nan => exact absurd rfl hx
  | finite x =>
    cases y with
    | nan => exact absurd rfl hy
    | finite y =>
      simp only [order, compare?, Option.getD_some, place, WithBot.coe_le_coe, WithTop.coe_le_coe]
      exact Std.isLE_compare
    | infinity s => cases s <;> simp [order, compare?, place, endpoint]
  | infinity r =>
    cases y with
    | nan => exact absurd rfl hy
    | finite y => cases r <;> simp [order, compare?, place, endpoint]
    | infinity s => cases r <;> cases s <;> simp [order, compare?, place, endpoint]

theorem order_isLE_trans (hx : x ≠ nan) (hy : y ≠ nan) (hz : z ≠ nan) (hxy : (x.order y).isLE)
    (hyz : (y.order z).isLE) : (x.order z).isLE := by
  rw [order_isLE hx hy] at hxy
  rw [order_isLE hy hz] at hyz
  exact (order_isLE hx hz).2 (hxy.trans hyz)

/-- The decimal of a number, and the end of the numbers if the number is too great to have one. -/
def rounded : Binary64 → WithBot (WithTop ℚ)
  | finite x =>
    match Decimal96.ofFinite? x with
    | some d => (d.toRat : WithTop ℚ)
    | none => endpoint x.negative
  | infinity negative => endpoint negative
  | nan => ⊥

/-- A finite number has a decimal, or it is too great on one of the two sides. -/
theorem rounded_finite (x : Finite) :
    (∃ d, Decimal96.ofFinite? x = some d ∧ (finite x).rounded = (d.toRat : WithTop ℚ) ∧
      x.units.natAbs < Decimal96.unitsBound) ∨
    (Decimal96.ofFinite? x = none ∧ (finite x).rounded = ⊤ ∧ Decimal96.unitsBound ≤ x.units) ∨
    (Decimal96.ofFinite? x = none ∧ (finite x).rounded = ⊥ ∧
      x.units ≤ -(Decimal96.unitsBound : ℤ)) := by
  cases hd : Decimal96.ofFinite? x with
  | some d =>
    refine .inl ⟨d, rfl, by simp [rounded, hd], ?_⟩
    rw [← not_le, ← Decimal96.ofFinite?_eq_none, hd]
    exact Option.some_ne_none d
  | none =>
    have hgreat := Decimal96.ofFinite?_eq_none.1 hd
    cases hs : x.negative with
    | false =>
      have := Finite.units_nonneg hs
      refine .inr (.inl ⟨rfl, ?_, by omega⟩)
      simp [rounded, hd, hs, endpoint]
    | true =>
      have := Finite.units_nonpos hs
      refine .inr (.inr ⟨rfl, ?_, by omega⟩)
      simp [rounded, hd, hs, endpoint]

/-- **Becoming a decimal keeps the order**, also of numbers that have none. -/
theorem rounded_mono (hx : x ≠ nan) (hy : y ≠ nan) (h : (x.order y).isLE) :
    x.rounded ≤ y.rounded := by
  rw [order_isLE hx hy] at h
  cases x with
  | nan => exact absurd rfl hx
  | infinity r =>
    cases y with
    | nan => exact absurd rfl hy
    | finite y => cases r <;> simp [place, endpoint, rounded] at h ⊢
    | infinity s => cases r <;> cases s <;> simp [place, endpoint, rounded] at h ⊢
  | finite x =>
    cases y with
    | nan => exact absurd rfl hy
    | infinity s => cases s <;> simp [place, endpoint, rounded] at h ⊢
    | finite y =>
      have hle : x.units ≤ y.units := by simpa [place] using h
      have hbound := Decimal96.unitsBound_pos
      obtain ⟨d, hd, hxr, hx⟩ | ⟨-, hxr, hx⟩ | ⟨-, hxr, hx⟩ := rounded_finite x
      · obtain ⟨e, he, hyr, hy⟩ | ⟨-, hyr, hy⟩ | ⟨-, hyr, hy⟩ := rounded_finite y
        · rw [hxr, hyr, WithBot.coe_le_coe, WithTop.coe_le_coe]
          exact Decimal96.toRat_mono hle hd he
        · simp [hyr]
        · omega
      · obtain ⟨e, he, hyr, hy⟩ | ⟨-, hyr, hy⟩ | ⟨-, hyr, hy⟩ := rounded_finite y
        · omega
        · simp [hyr]
        · omega
      · simp [hxr]

end Binary64

namespace Decimal96

theorem toRat_eq (d : Decimal96) :
    d.toRat = ((if d.negative then -(d.coefficient : ℤ) else d.coefficient : ℤ) : ℚ) /
      10 ^ d.places := by
  unfold toRat magnitude
  split <;> simp [neg_div]

theorem compareInt_isLE {n : ℤ} {d : Decimal96} : (compareInt n d).isLE ↔ (n : ℚ) ≤ d.toRat := by
  rw [compareInt, Std.isLE_compare, toRat_eq, le_div_iff₀ (by positivity)]
  exact_mod_cast Iff.rfl

theorem compareInt_isGE {n : ℤ} {d : Decimal96} : (compareInt n d).isGE ↔ d.toRat ≤ n := by
  rw [compareInt, Std.isGE_compare, toRat_eq, div_le_iff₀ (by positivity)]
  exact_mod_cast Iff.rfl

end Decimal96

theorem DateTime.order_isLE_trans {s t u : DateTime} (hst : (s.order t).isLE)
    (htu : (t.order u).isLE) : (s.order u).isLE :=
  @Std.TransCmp.isLE_trans _
    (compareLex (compareOn DateTime.seconds) (compareOn DateTime.nanos)) _ s t u hst htu

namespace Value

/-! ### Whole numbers among binary numbers -/

theorem mixedOrder_cases (n : Int64) {x : Binary64} (hx : x ≠ .nan) :
    (∃ d : Decimal96, x.rounded = (d.toRat : WithTop ℚ) ∧
      mixedOrder n.toInt x = d.compareInt n.toInt) ∨
    (x.rounded = ⊤ ∧ mixedOrder n.toInt x = .lt) ∨
    (x.rounded = ⊥ ∧ mixedOrder n.toInt x = .gt) := by
  have hlow := n.le_toInt
  have hhigh := n.toInt_lt
  obtain ⟨y, hexp, hy⟩ := Binary64.exists_finite_ofInt (n := n.toInt) (by omega)
  have hsmall := Binary64.natAbs_units_lt hexp
  cases x with
  | nan => exact absurd rfl hx
  | infinity r =>
    refine .inr ?_
    cases r <;> simp [mixedOrder, decimal?, hy, Binary64.order, Binary64.compare?,
      Binary64.rounded, Binary64.endpoint]
  | finite x =>
    obtain ⟨d, hd, hr, -⟩ | ⟨hd, hr, hx⟩ | ⟨hd, hr, hx⟩ := Binary64.rounded_finite x
    · exact .inl ⟨d, hr, by simp [mixedOrder, decimal?, hd]⟩
    · have hlt : y.units < x.units := by omega
      refine .inr (.inl ⟨hr, ?_⟩)
      simp only [mixedOrder, decimal?, hd, hy, Binary64.order, Binary64.compare?, Option.getD_some]
      exact compare_lt_iff_lt.2 hlt
    · have hgt : x.units < y.units := by omega
      refine .inr (.inr ⟨hr, ?_⟩)
      simp only [mixedOrder, decimal?, hd, hy, Binary64.order, Binary64.compare?, Option.getD_some]
      exact compare_gt_iff_gt.2 hgt

variable {n : Int64} {x y : Binary64}

/-- A whole number and a binary one are in the order of the former and the decimal of the latter. -/
theorem mixedOrder_isLE (hx : x ≠ .nan) :
    (mixedOrder n.toInt x).isLE ↔ ((n.toInt : ℚ) : WithTop ℚ) ≤ x.rounded := by
  obtain ⟨d, hr, ho⟩ | ⟨hr, ho⟩ | ⟨hr, ho⟩ := mixedOrder_cases n hx
  · rw [hr, ho, Decimal96.compareInt_isLE, WithBot.coe_le_coe, WithTop.coe_le_coe]
  · simp [hr, ho]
  · simp [hr, ho]

theorem mixedOrder_isGE (hx : x ≠ .nan) :
    (mixedOrder n.toInt x).isGE ↔ x.rounded ≤ ((n.toInt : ℚ) : WithTop ℚ) := by
  obtain ⟨d, hr, ho⟩ | ⟨hr, ho⟩ | ⟨hr, ho⟩ := mixedOrder_cases n hx
  · rw [hr, ho, Decimal96.compareInt_isGE, WithBot.coe_le_coe, WithTop.coe_le_coe]
  · simp [hr, ho]
  · simp [hr, ho]

/-! ### Kinds -/

variable {a b c v : Value}

theorem eq_boolean_of_rank (h : v.rank = 1) : ∃ b, v = boolean b := by
  cases v <;> simp [rank] at h ⊢

theorem eq_string_of_rank (h : v.rank = 3) : ∃ s, v = string s := by
  cases v <;> simp [rank] at h ⊢

theorem eq_dateTime_of_rank (h : v.rank = 4) : ∃ t, v = dateTime t := by
  cases v <;> simp [rank] at h ⊢

theorem eq_number_of_rank (h : v.rank = 2) : (∃ n, v = integer n) ∨ ∃ x, v = float x := by
  cases v <;> simp [rank] at h ⊢

theorem rank_le_of_isLE (h : (a.order b).isLE) : a.rank ≤ b.rank := by
  by_cases hr : a.rank = b.rank
  · exact hr.le
  · rw [order_eq_compare_rank_of_rank (.inl hr)] at h
    exact Std.isLE_compare.1 h

/-- Exchanging the values reverses their order. -/
theorem order_swap (a b : Value) : b.order a = (a.order b).swap := by
  by_cases h : a.rank ≠ b.rank ∨ a.rank = 0 ∨ 5 ≤ a.rank
  · rw [order_eq_compare_rank_of_rank h, order_eq_compare_rank_of_rank (by omega)]
    exact Std.OrientedOrd.eq_swap
  · obtain ha | ha | ha | ha : a.rank = 1 ∨ a.rank = 2 ∨ a.rank = 3 ∨ a.rank = 4 := by omega
    · obtain ⟨p, rfl⟩ := eq_boolean_of_rank ha
      obtain ⟨q, rfl⟩ := eq_boolean_of_rank (v := b) (by omega)
      exact Std.OrientedOrd.eq_swap
    · obtain ⟨n, rfl⟩ | ⟨x, rfl⟩ := eq_number_of_rank ha <;>
        obtain ⟨m, rfl⟩ | ⟨y, rfl⟩ := eq_number_of_rank (v := b) (by omega)
      · exact Std.OrientedOrd.eq_swap
      · rfl
      · exact Ordering.swap_swap.symm
      · exact Binary64.order_swap x y
    · obtain ⟨s, rfl⟩ := eq_string_of_rank ha
      obtain ⟨t, rfl⟩ := eq_string_of_rank (v := b) (by omega)
      exact Std.OrientedOrd.eq_swap
    · obtain ⟨t, rfl⟩ := eq_dateTime_of_rank ha
      obtain ⟨u, rfl⟩ := eq_dateTime_of_rank (v := b) (by omega)
      exact DateTime.order_swap t u

theorem order_self (v : Value) : v.order v = .eq := by
  have hswap := v.order_swap v
  cases h : v.order v <;> rw [h] at hswap <;> cases hswap

/-! ### Numbers -/

/-- What numbers of different kinds are compared by. -/
def rounded : Value → WithBot (WithTop ℚ)
  | integer n => ((n.toInt : ℚ) : WithTop ℚ)
  | float x => x.rounded
  | _ => ⊥

theorem ne_nan (h : float x ≠ float .nan) : x ≠ .nan := fun hx => h (congrArg float hx)

theorem rounded_le_of_isLE (ha : a.rank = 2) (hb : b.rank = 2) (hna : a ≠ float .nan)
    (hnb : b ≠ float .nan) (h : (a.order b).isLE) : a.rounded ≤ b.rounded := by
  obtain ⟨n, rfl⟩ | ⟨x, rfl⟩ := eq_number_of_rank ha <;>
    obtain ⟨m, rfl⟩ | ⟨y, rfl⟩ := eq_number_of_rank hb
  · have hle : n.toInt ≤ m.toInt := Std.isLE_compare.1 h
    simpa [rounded] using hle
  · exact (mixedOrder_isLE (ne_nan hnb)).1 h
  · exact (mixedOrder_isGE (ne_nan hna)).1 (Ordering.isLE_swap ▸ h)
  · exact Binary64.rounded_mono (ne_nan hna) (ne_nan hnb) h

/-- With a whole number among the two, the other direction holds as well. -/
theorem isLE_of_rounded_le (ha : a.rank = 2) (hb : b.rank = 2) (hna : a ≠ float .nan)
    (hnb : b ≠ float .nan) (hint : (∃ n, a = integer n) ∨ ∃ n, b = integer n)
    (h : a.rounded ≤ b.rounded) : (a.order b).isLE := by
  obtain ⟨n, rfl⟩ | ⟨x, rfl⟩ := eq_number_of_rank ha <;>
    obtain ⟨m, rfl⟩ | ⟨y, rfl⟩ := eq_number_of_rank hb
  · refine Std.isLE_compare.2 ?_
    simpa [rounded] using h
  · exact (mixedOrder_isLE (ne_nan hnb)).2 h
  · have hge := (mixedOrder_isGE (ne_nan hna)).2 h
    exact Ordering.isLE_swap.trans hge
  · obtain ⟨_, hn⟩ | ⟨_, hn⟩ := hint <;> cases hn

/-- Two binary numbers, the first one greater, that tie with the whole number between them. -/
def FallTogether (a b c : Value) : Prop :=
  ∃ x n y, a = float x ∧ b = integer n ∧ c = float y ∧
    a.order b = .eq ∧ b.order c = .eq ∧ c.order a = .lt

theorem not_isLE_of_fallTogether (h : FallTogether a b c) : ¬ (a.order c).isLE := by
  obtain ⟨_, _, _, _, _, _, _, _, hlt⟩ := h
  rw [order_swap, hlt]
  decide

/-- Numbers are transitive unless they fall together. -/
theorem order_isLE_trans_of_number (ha : a.rank = 2) (hb : b.rank = 2) (hc : c.rank = 2)
    (hna : a ≠ float .nan) (hnb : b ≠ float .nan) (hnc : c ≠ float .nan)
    (hab : (a.order b).isLE) (hbc : (b.order c).isLE) (h : ¬ FallTogether a b c) :
    (a.order c).isLE := by
  have hle : a.rounded ≤ b.rounded := rounded_le_of_isLE ha hb hna hnb hab
  have hle' : b.rounded ≤ c.rounded := rounded_le_of_isLE hb hc hnb hnc hbc
  by_cases hint : (∃ n, a = integer n) ∨ ∃ n, c = integer n
  · exact isLE_of_rounded_le ha hc hna hnc hint (hle.trans hle')
  obtain ⟨x, rfl⟩ := (eq_number_of_rank ha).resolve_left fun h => hint (.inl h)
  obtain ⟨z, rfl⟩ := (eq_number_of_rank hc).resolve_left fun h => hint (.inr h)
  obtain ⟨n, rfl⟩ | ⟨y, rfl⟩ := eq_number_of_rank hb
  · by_contra hgt
    have hca : (float z).order (float x) = .lt := by
      rw [order_swap]
      cases ho : (float x).order (float z) <;> simp_all
    have hle'' : (float z).rounded ≤ (float x).rounded :=
      rounded_le_of_isLE hc ha hnc hna (by simp [hca])
    refine h ⟨x, n, z, rfl, rfl, rfl, ?_, ?_, hca⟩
    · refine Ordering.eq_eq_of_isLE_of_isLE_swap hab ?_
      rw [← order_swap]
      exact isLE_of_rounded_le hb ha hnb hna (.inl ⟨n, rfl⟩) (hle'.trans hle'')
    · refine Ordering.eq_eq_of_isLE_of_isLE_swap hbc ?_
      rw [← order_swap]
      exact isLE_of_rounded_le hc hb hnc hnb (.inr ⟨n, rfl⟩) (hle''.trans hle)
  · exact Binary64.order_isLE_trans (ne_nan hna) (ne_nan hnb) (ne_nan hnc) hab hbc

/-- Values of other kinds are transitive. -/
theorem order_isLE_trans_of_not_number (hr : a.rank = b.rank) (hr' : b.rank = c.rank)
    (ha : a.rank ≠ 2) (hab : (a.order b).isLE) (hbc : (b.order c).isLE) : (a.order c).isLE := by
  by_cases h : a.rank = 0 ∨ 5 ≤ a.rank
  · rw [order_eq_compare_rank_of_rank (.inr h), Std.isLE_compare]
    exact (hr.trans hr').le
  · obtain ha | ha | ha : a.rank = 1 ∨ a.rank = 3 ∨ a.rank = 4 := by omega
    · obtain ⟨p, rfl⟩ := eq_boolean_of_rank ha
      obtain ⟨q, rfl⟩ := eq_boolean_of_rank (v := b) (by omega)
      obtain ⟨r, rfl⟩ := eq_boolean_of_rank (v := c) (by omega)
      exact Std.TransOrd.isLE_trans hab hbc
    · obtain ⟨s, rfl⟩ := eq_string_of_rank ha
      obtain ⟨t, rfl⟩ := eq_string_of_rank (v := b) (by omega)
      obtain ⟨u, rfl⟩ := eq_string_of_rank (v := c) (by omega)
      exact Std.TransOrd.isLE_trans hab hbc
    · obtain ⟨s, rfl⟩ := eq_dateTime_of_rank ha
      obtain ⟨t, rfl⟩ := eq_dateTime_of_rank (v := b) (by omega)
      obtain ⟨u, rfl⟩ := eq_dateTime_of_rank (v := c) (by omega)
      exact DateTime.order_isLE_trans hab hbc

/-- Only numbers stand in the way of transitivity. -/
theorem order_isLE_trans_but_numbers (hab : (a.order b).isLE) (hbc : (b.order c).isLE)
    (h : a.rank = 2 → b.rank = 2 → c.rank = 2 → (a.order c).isLE) : (a.order c).isLE := by
  have hrank := rank_le_of_isLE hab
  have hrank' := rank_le_of_isLE hbc
  by_cases hr : a.rank = c.rank
  · by_cases ha : a.rank = 2
    · exact h ha (by omega) (by omega)
    · exact order_isLE_trans_of_not_number (by omega) (by omega) ha hab hbc
  · rw [order_eq_compare_rank_of_rank (.inl hr), Std.isLE_compare]
    exact hrank.trans hrank'

theorem order_isLE_trans (hna : a ≠ float .nan) (hnb : b ≠ float .nan) (hnc : c ≠ float .nan)
    (hab : (a.order b).isLE) (hbc : (b.order c).isLE) (h : ¬ FallTogether a b c) :
    (a.order c).isLE :=
  order_isLE_trans_but_numbers hab hbc fun ha hb hc =>
    order_isLE_trans_of_number ha hb hc hna hnb hnc hab hbc h

/-- **The order of values is a total preorder but for numbers that fall together.** Exchanging two
values reverses their order. And if one value is not behind a second one and this is not behind a
third one, then the first is not behind the third one, unless the three are two binary numbers, the
greater one first, and between them a whole number that ties with both. -/
theorem order_swap_and_isLE_trans_iff (hna : a ≠ float .nan) (hnb : b ≠ float .nan)
    (hnc : c ≠ float .nan) :
    b.order a = (a.order b).swap ∧
      ((a.order b).isLE → (b.order c).isLE → ((a.order c).isLE ↔ ¬ FallTogether a b c)) :=
  ⟨order_swap a b, fun hab hbc =>
    ⟨fun hac h => not_isLE_of_fallTogether h hac, order_isLE_trans hna hnb hnc hab hbc⟩⟩

/-- One. -/
def one : Binary64 := .ofParts false (Nat.pow 2 52) (-52)

/-- The least number above one. -/
def aboveOne : Binary64 := .ofParts false (Nat.pow 2 52 + 1) (-52)

/-- One and a half. -/
def oneAndAHalf : Binary64 := .ofParts false (Nat.pow 2 52 + Nat.pow 2 51) (-52)

/-- The least number above one ties with the whole number one, which is before one and a half. The
first is not behind the last exactly if the three do not fall together. -/
theorem order_swap_and_isLE_trans_iff_aboveOne :
    ((float aboveOne).order (integer 1) = .eq ∧ (integer 1).order (float oneAndAHalf) = .lt) ∧
      (integer 1).order (float aboveOne) = ((float aboveOne).order (integer 1)).swap ∧
      (((float aboveOne).order (float oneAndAHalf)).isLE ↔
        ¬ FallTogether (float aboveOne) (integer 1) (float oneAndAHalf)) := by
  have htie : (float aboveOne).order (integer 1) = .eq := by decide +kernel
  have hlt : (integer 1).order (float oneAndAHalf) = .lt := by decide +kernel
  have hna : float aboveOne ≠ float .nan := fun h => absurd (float.inj h) (by decide)
  have hnc : float oneAndAHalf ≠ float .nan := fun h => absurd (float.inj h) (by decide)
  have h := order_swap_and_isLE_trans_iff hna (b := integer 1) nofun hnc
  exact ⟨⟨htie, hlt⟩, h.1, h.2 (by rw [htie]; rfl) (by rw [hlt]; rfl)⟩

/-- The least number above one is not behind the whole number one, which is not behind the binary
number one, but the first is behind the last. -/
theorem not_isLE_trans_aboveOne :
    ¬ (((float aboveOne).order (integer 1)).isLE → ((integer 1).order (float one)).isLE →
      ((float aboveOne).order (float one)).isLE) := by
  decide +kernel

end Value
end NestedQuery
