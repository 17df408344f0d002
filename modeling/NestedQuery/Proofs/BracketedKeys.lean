/-
# Keys in square brackets

A key in square brackets is one segment of a path, and on an object or a
record it reads the entry of its own name, with one exception. A key that is
the numeral of a 64-bit position is kept as the position alone, and what is
read is the entry named by the shortest numeral of that position. So a key
with a plus sign or a zero too many in front (`Numeral.Respells`) never reads
the entry of its own name: it reads another one, or finds none.

Key definition: `Numeral.Respells`.
Key theorems: `Numeral.index?_and_ne_iff`, `parsePath_bracketed`,
`Accessor.getValue_bracketed`.
-/
import Mathlib.Data.List.Basic
import NestedQuery.Proofs.PropertyPath

namespace NestedQuery

/-! ### Numerals that are not the shortest -/

namespace Numeral

/-- The text is a numeral of this position with a plus sign or a zero too many in front. -/
def Respells (text : String) (n : Nat) : Prop :=
  ∃ sign ∈ ['+', '0'], ∃ digits, text.toList = sign :: digits ∧ word? digits = some n

theorem digitChar_of_isDigit {c : Char} (h : c.isDigit = true) :
    Nat.digitChar (c.toNat - '0'.toNat) = c := by
  have hc : 48 ≤ c.toNat ∧ c.toNat ≤ 57 := Char.isDigit_iff_toNat.1 h
  have hzero : '0'.toNat = 48 := rfl
  apply Char.toNat_inj.1
  rw [hzero, Nat.toNat_digitChar_of_lt_ten (by omega)]
  omega

/-- Digits behind the shortest numeral of a positive number are the shortest numeral. -/
theorem toDigits_append {digits : List Char} {n : Nat} (hn : 0 < n)
    (hd : digits.all Char.isDigit = true) :
    Nat.toDigits 10 n ++ digits = Nat.toDigits 10 (Nat.ofDigitChars 10 digits n) := by
  induction digits generalizing n with
  | nil => simp
  | cons c digits ih =>
    rw [List.all_cons, Bool.and_eq_true] at hd
    have hc : '0'.toNat ≤ c.toNat ∧ c.toNat ≤ '9'.toNat := Char.isDigit_iff_toNat.1 hd.1
    have hbound : '9'.toNat - '0'.toNat < 10 := by decide
    have hlt : c.toNat - '0'.toNat < 10 := by omega
    have hlast : Nat.toDigits 10 n ++ [c] = Nat.toDigits 10 (10 * n + (c.toNat - '0'.toNat)) := by
      rw [← Nat.toDigits_append_toDigits (by decide) hn hlt, Nat.toDigits_of_lt_base hlt,
        digitChar_of_isDigit hd.1]
    calc Nat.toDigits 10 n ++ c :: digits
        = Nat.toDigits 10 n ++ [c] ++ digits := by simp
      _ = Nat.toDigits 10 (10 * n + (c.toNat - '0'.toNat)) ++ digits := by rw [hlast]
      _ = Nat.toDigits 10 (Nat.ofDigitChars 10 (c :: digits) n) := by
        rw [ih (by omega) hd.2, Nat.ofDigitChars_cons]

/-- A numeral that does not begin with a zero is the shortest one. -/
theorem toDigits_value {c : Char} {digits : List Char} (hc : c ≠ '0')
    (hd : (c :: digits).all Char.isDigit = true) :
    Nat.toDigits 10 (value (c :: digits)) = c :: digits := by
  rw [List.all_cons, Bool.and_eq_true] at hd
  have hrange : '0'.toNat ≤ c.toNat ∧ c.toNat ≤ '9'.toNat := Char.isDigit_iff_toNat.1 hd.1
  have hne : c.toNat ≠ '0'.toNat := fun he => hc (Char.toNat_inj.1 he)
  have hbound : '9'.toNat - '0'.toNat < 10 := by decide
  have hfirst : Nat.toDigits 10 (c.toNat - '0'.toNat) = [c] := by
    rw [Nat.toDigits_of_lt_base (by omega), digitChar_of_isDigit hd.1]
  have hvalue : value (c :: digits) = Nat.ofDigitChars 10 digits (c.toNat - '0'.toNat) := by
    rw [value, Nat.ofDigitChars_cons, Nat.mul_zero, Nat.zero_add]
  rw [hvalue, ← toDigits_append (by omega) hd.2, hfirst]
  rfl

/-- Only the shortest numeral of zero begins with a zero. -/
theorem eq_zero_of_toDigits {n : Nat} {digits : List Char}
    (h : Nat.toDigits 10 n = '0' :: digits) : n = 0 := by
  induction n using Nat.strongRecOn generalizing digits with
  | ind n ih =>
    by_cases hlt : n < 10
    · rw [Nat.toDigits_of_lt_base hlt, List.cons.injEq] at h
      have hzero : 48 + n = 48 := by
        rw [← Nat.toNat_digitChar_of_lt_ten hlt, h.1]
        rfl
      omega
    · have hnil : Nat.toDigits 10 (n / 10) ≠ [] := Nat.toDigits_ne_nil
      obtain ⟨c, rest, hfront⟩ := List.exists_cons_of_ne_nil hnil
      rw [Nat.toDigits_of_base_le (by decide) (by omega), hfront, List.cons_append,
        List.cons.injEq] at h
      have hzero := ih (n / 10) (by omega) (hfront.trans (by rw [h.1]))
      omega

theorem toList_toString (n : Nat) : (toString n).toList = Nat.toDigits 10 n := by
  rw [Nat.toString_eq_ofList_toDigits, String.toList_ofList]

/-- A zero in front leaves the number of digits as it is. -/
theorem word?_zero_cons {digits : List Char} (h : digits ≠ []) :
    word? ('0' :: digits) = word? digits := by
  have hvalue : value ('0' :: digits) = value digits := by
    rw [value, Nat.ofDigitChars_cons]
    rfl
  have hall : ('0' :: digits).all Char.isDigit = digits.all Char.isDigit := rfl
  simp only [word?, hvalue, hall, ne_eq, List.cons_ne_nil, h, not_false_eq_true, true_and]

/-- The text of a position is not its shortest numeral if and only if there is something too much
in front of it. -/
theorem index?_and_ne_iff {text : String} {n : Nat} :
    index? text = some n ∧ toString n ≠ text ↔ Respells text n := by
  have htext : toString n = text ↔ Nat.toDigits 10 n = text.toList := by
    rw [← String.toList_inj, toList_toString]
  rw [index?_eq_some_iff, Ne, htext]
  constructor
  · rintro ⟨⟨digits, hdigits | hdigits, hw⟩, hne⟩
    · obtain ⟨hnil, hd, -, hv⟩ := word?_eq_some_iff.1 hw
      obtain ⟨c, rest, rfl⟩ := List.exists_cons_of_ne_nil hnil
      rw [hdigits] at hne
      have hc : c = '0' := by
        by_contra hc
        exact hne (hv ▸ toDigits_value hc hd)
      subst hc
      have hrest : rest ≠ [] := by
        rintro rfl
        have hzero : n = 0 := hv.symm
        exact hne (by rw [hzero, Nat.toDigits_zero])
      exact ⟨'0', by simp, rest, hdigits, word?_zero_cons hrest ▸ hw⟩
    · exact ⟨'+', by simp, digits, hdigits, hw⟩
  · rintro ⟨sign, hsign, digits, hdigits, hw⟩
    obtain ⟨hnil, hd, -, hv⟩ := word?_eq_some_iff.1 hw
    rw [hdigits]
    obtain rfl | rfl : sign = '+' ∨ sign = '0' := by simpa using hsign
    · refine ⟨⟨digits, .inr rfl, hw⟩, fun he => ?_⟩
      have hplus : '+' ∈ Nat.toDigits 10 n := by
        rw [he]
        exact List.mem_cons_self
      exact absurd (Nat.isDigit_of_mem_toDigits (by decide) (by decide) hplus) (by decide)
    · refine ⟨⟨'0' :: digits, .inl rfl, (word?_zero_cons hnil).trans hw⟩, fun he => ?_⟩
      rw [eq_zero_of_toDigits he, Nat.toDigits_zero, List.cons.injEq] at he
      exact hnil he.2.symm

end Numeral

/-! ### Reading by a key in brackets -/

namespace PropertyPath

/-- Without a numeral to shorten, a key names itself. -/
theorem key_ofKey {key : String} (h : ∀ n, ¬ Numeral.Respells key n) :
    (ofKey key).key = key := by
  unfold ofKey
  cases hi : Numeral.index? key with
  | none => rfl
  | some n =>
    by_contra hne
    exact h n (Numeral.index?_and_ne_iff.1 ⟨hi, hne⟩)

theorem key_ofKey_of_respells {key : String} {n : Nat} (h : Numeral.Respells key n) :
    (ofKey key).key = toString n := by
  unfold ofKey
  rw [(Numeral.index?_and_ne_iff.2 h).1]
  rfl

end PropertyPath

open PropertyPath

/-- A key in brackets is the one segment of its path. -/
theorem parsePath_bracketed {key : String} (hne : key ≠ "")
    (hk : ∀ c ∈ key.toList, inBrackets c = true) :
    parsePath ("[" ++ key ++ "]") = .ok [ofKey key] := by
  have hnil : key.toList ≠ [] := fun he => hne (String.toList_eq_nil_iff.1 he)
  have hclosing : ∀ c ∈ [']'].head?, inBrackets c = false := by simp [inBrackets]
  have helement : element? true '[' (key.toList ++ [']']) = some (ofKey key, []) := by
    rw [element?, if_pos rfl, dropWhile_append_of_head hk hclosing,
      takeWhile_append_of_head hk hclosing]
    simp [hnil]
  have hchars : ("[" ++ key ++ "]").toList = '[' :: (key.toList ++ [']']) := by
    simp [String.toList_append]
  have hempty : "[" ++ key ++ "]" ≠ "" := by
    intro he
    rw [he] at hchars
    cases hchars
  rw [parsePath, if_neg hempty, hchars, segments?_cons helement rfl, segments?]
  rfl

/-- **Keys in square brackets.** On an object, and on a record with these attributes, a key in
brackets reads the entry of its own name, or misses it if there is none, unless it is a numeral
with a plus sign or a zero too many in front. Such a key reads the entry named by the shortest
numeral of the position, which is another one, whether or not there is an entry of its name. -/
theorem Accessor.getValue_bracketed (accessor : Accessor) {key : String} (hne : key ≠ "")
    (hk : '[' ∉ key.toList ∧ ']' ∉ key.toList) {attributes : Entries Value} {m : Value}
    (hm : m = .object attributes ∨ ∃ handle type, m = .record handle type attributes) :
    let path := "[" ++ key ++ "]"
    let entry (name : String) := (attributes.get? name).elim (accessor.missing path) .ok
    ((∀ n, ¬ Numeral.Respells key n) → accessor.getValue m path = entry key) ∧
      ∀ n, Numeral.Respells key n →
        toString n ≠ key ∧ accessor.getValue m path = entry (toString n) := by
  intro path entry
  have hbrackets : ∀ c ∈ key.toList, inBrackets c = true := by
    intro c hc
    have hopening : c ≠ '[' := fun he => hk.1 (he ▸ hc)
    have hclosing : c ≠ ']' := fun he => hk.2 (he ▸ hc)
    simp [inBrackets, hopening, hclosing]
  have hread : m.read (ofKey key) = .ok (attributes.get? (ofKey key).key) := by
    obtain rfl | ⟨handle, type, rfl⟩ := hm <;> rfl
  have hvalue : accessor.getValue m path = entry (ofKey key).key := by
    rw [getValue, parsePath_bracketed hne hbrackets]
    simp only [Value.follow, hread, entry]
    cases attributes.get? (ofKey key).key <;> rfl
  refine ⟨fun h => ?_, fun n h => ⟨(Numeral.index?_and_ne_iff.2 h).2, ?_⟩⟩
  · rw [hvalue, key_ofKey h]
  · rw [hvalue, key_ofKey_of_respells h]

/-- A key with blanks is found, a strict accessor misses one that is not there, and zeros in front
of a numeral are lost. -/
theorem Accessor.getValue_bracketed_spellings :
    let attributes : Entries Value :=
      [("first name", .integer 1), ("007", .integer 2), ("7", .integer 3)]
    let strict : Accessor := ⟨true⟩
    (∀ n, ¬ Numeral.Respells "first name" n) ∧ (∀ n, ¬ Numeral.Respells "last name" n) ∧
      Numeral.Respells "007" 7 ∧
      strict.getValue (.object attributes) "[first name]" = .ok (.integer 1) ∧
      strict.getValue (.record 0 "R" attributes) "[last name]" =
        .error (.noSuchProperty "[last name]") ∧
      strict.getValue (.object attributes) "[007]" = .ok (.integer 3) := by
  intro attributes strict
  have hfirst : ∀ n, ¬ Numeral.Respells "first name" n := by
    rintro n ⟨sign, hsign, digits, hchars, -⟩
    cases hchars
    exact absurd hsign (by decide)
  have hlast : ∀ n, ¬ Numeral.Respells "last name" n := by
    rintro n ⟨sign, hsign, digits, hchars, -⟩
    cases hchars
    exact absurd hsign (by decide)
  have hzeros : Numeral.Respells "007" 7 := ⟨'0', by simp, ['0', '7'], rfl, by decide⟩
  have hobject : Value.object attributes = .object attributes ∨
      ∃ handle type, Value.object attributes = .record handle type attributes := .inl rfl
  have hrecord : Value.record 0 "R" attributes = .object attributes ∨
      ∃ handle type, Value.record 0 "R" attributes = .record handle type attributes :=
    .inr ⟨0, "R", rfl⟩
  refine ⟨hfirst, hlast, hzeros, ?_, ?_, ?_⟩
  · exact (strict.getValue_bracketed (by decide) (by decide) hobject).1 hfirst
  · exact (strict.getValue_bracketed (by decide) (by decide) hrecord).1 hlast
  · exact ((strict.getValue_bracketed (by decide) (by decide) hobject).2 7 hzeros).2

/-- The entry named by the key itself is there, and it is not what is read. -/
theorem Accessor.getValue_bracketed_other_entry :
    let attributes : Entries Value := [("007", .integer 1), ("7", .integer 2)]
    Entries.get? attributes "007" = some (.integer 1) ∧
      Accessor.getValue {} (.object attributes) "[007]" = .ok (.integer 2) := by
  intro attributes
  have hkey : ∀ c ∈ "007".toList, inBrackets c = true := by simp [inBrackets]
  have hparse : parsePath "[007]" = .ok [.index 7] := parsePath_bracketed (by decide) hkey
  refine ⟨rfl, ?_⟩
  rw [getValue, hparse]
  rfl

end NestedQuery
