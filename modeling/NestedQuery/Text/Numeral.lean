/-
# Decimal numerals

How whole numbers are written in queries and property paths: ASCII digits,
leading zeros allowed. Sizes and positions fill a 64-bit word, so an index
is a numeral below `2 ^ 64`, which may carry one plus sign.

Key definitions: `wordSize`, `Numeral.value`, `Numeral.index?`.
Key theorems: `Numeral.value_toDigits`, `Numeral.index?_eq_some_iff`.
-/
namespace NestedQuery

/-- Sizes and positions are below this bound. -/
def wordSize : Nat := Nat.pow 2 64

namespace Numeral

/-- The number that a list of decimal digits denotes; none denote zero. -/
def value (digits : List Char) : Nat := Nat.ofDigitChars 10 digits 0

/-- Writing a number in decimal and reading it gives it back. -/
theorem value_toDigits (n : Nat) : value (Nat.toDigits 10 n) = n :=
  Nat.ofDigitChars_toDigits (by decide) (by decide)

/-- The number below the word size that a non-empty list of digits denotes. -/
def word? (digits : List Char) : Option Nat :=
  if digits ≠ [] ∧ digits.all Char.isDigit ∧ value digits < wordSize then some (value digits)
  else none

theorem word?_eq_some_iff {digits : List Char} {n : Nat} :
    word? digits = some n ↔
      digits ≠ [] ∧ digits.all Char.isDigit ∧ value digits < wordSize ∧ value digits = n := by
  unfold word?
  split
  · next h => exact ⟨fun hn => ⟨h.1, h.2.1, h.2.2, Option.some.inj hn⟩, fun hn => by rw [hn.2.2.2]⟩
  · next h => exact ⟨fun hn => by simp at hn, fun hn => absurd ⟨hn.1, hn.2.1, hn.2.2.1⟩ h⟩

/-- The position that a text denotes: a numeral below the word size, after at most one plus. -/
def index? (text : String) : Option Nat :=
  match text.toList with
  | '+' :: digits => word? digits
  | digits => word? digits

theorem index?_eq_some_iff {text : String} {n : Nat} :
    index? text = some n ↔
      ∃ digits, (text.toList = digits ∨ text.toList = '+' :: digits) ∧ word? digits = some n := by
  unfold index?
  split
  · next digits h =>
    constructor
    · exact fun hw => ⟨digits, .inr h, hw⟩
    · rintro ⟨ds, h' | h', hw⟩
      · have hd := (word?_eq_some_iff.1 hw).2.1
        rw [← h', h] at hd
        simp at hd
      · rw [h] at h'
        injection h' with _ h'
        exact h' ▸ hw
  · next h =>
    constructor
    · exact fun hw => ⟨_, .inl rfl, hw⟩
    · rintro ⟨ds, h' | h', hw⟩
      · exact h' ▸ hw
      · exact absurd h' (h ds)

end Numeral
end NestedQuery
