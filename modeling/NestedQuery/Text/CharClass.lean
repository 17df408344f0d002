/-
# Character classes of queries

Which characters separate tokens, begin a word and continue one. All three
classes reach beyond ASCII: blanks are Unicode's `White_Space`, words begin
with a letter of any script or `_` and go on with letters, numbers and `_`.
No blank is part of a word.

Key definitions: `isBlank`, `isWordStart`, `isWordPart`.
Key theorems: `isWordPart_of_isWordStart`, `not_isWordPart_of_isBlank`.
-/
import NestedQuery.Text.Alphabetic
import NestedQuery.Text.Numeric

namespace NestedQuery
namespace Text

/-- The code points with the property `White_Space`, in ascending order. -/
def blank : CodeRanges :=
  [(0x9, 0xd), (0x20, 0x20), (0x85, 0x85), (0xa0, 0xa0), (0x1680, 0x1680), (0x2000, 0x200a),
  (0x2028, 0x2029), (0x202f, 0x202f), (0x205f, 0x205f), (0x3000, 0x3000)]

/-- A blank separates tokens and has no other meaning. -/
def isBlank (c : Char) : Bool := blank.has c.toNat

/-- A word begins with a letter or an underscore. -/
def isWordStart (c : Char) : Bool := c == '_' || alphabetic.has c.toNat

/-- A word goes on with letters, numbers and underscores. -/
def isWordPart (c : Char) : Bool := isWordStart c || numeric.has c.toNat

theorem isWordPart_of_isWordStart {c : Char} (h : isWordStart c = true) :
    isWordPart c = true := by
  simp [isWordPart, h]

theorem isWordPart_of_isDigit {c : Char} (h : c.isDigit = true) : isWordPart c = true := by
  have h1 : 48 ≤ c.toNat ∧ c.toNat ≤ 57 := by
    simp only [Char.isDigit, ge_iff_le, Bool.and_eq_true, decide_eq_true_eq,
      UInt32.le_iff_toNat_le] at h
    exact h
  have h2 : ¬ c.toNat < 48 := by omega
  have h3 : ∀ others, CodeRanges.has ((0x30, 0x39) :: others) c.toNat = true := by
    intro others
    simp [CodeRanges.has, h1.2, h2]
  have h4 : numeric.has c.toNat = true := h3 numeric.tail
  simp [isWordPart, h4]

/-- A blank always ends a word. -/
theorem not_isWordPart_of_isBlank {c : Char} (h : isBlank c = true) : isWordPart c = false := by
  have h1 : blank.allMembers (fun n => n != 95 && !alphabetic.has n && !numeric.has n) = true := by
    decide +kernel
  have h2 := CodeRanges.allMembers_has (by decide +kernel) h1 h
  simp only [Bool.and_eq_true, bne_iff_ne, ne_eq, Bool.not_eq_true'] at h2
  have h3 : (c == '_') = false := by
    simp only [beq_eq_false_iff_ne, ne_eq]
    rintro rfl
    exact h2.1.1 rfl
  simp [isWordPart, isWordStart, h2.1.2, h2.2, h3]

end Text
end NestedQuery
