/-
# Sets of code points

A set of code points written as ascending, disjoint ranges. Membership walks
the ranges and stops at the first one that begins behind the code point, so
the ranges that most texts need, which come first, are the cheapest.

Key definitions: `CodeRanges.has`, `CodeRanges.Ascending`, `CodeRanges.allMembers`.
Key theorems: `CodeRanges.has_eq_true_iff`, `CodeRanges.allMembers_has`.
-/
namespace NestedQuery
namespace Text

/-- Ranges of code points, each given by its first and its last member. -/
abbrev CodeRanges := List (Nat × Nat)

namespace CodeRanges

/-- Whether `n` lies in one of the ranges, which ascend. -/
def has : CodeRanges → Nat → Bool
  | [], _ => false
  | (first, last) :: ranges, n => if n < first then false else n ≤ last || has ranges n

/-- Every range is non-empty and ends before the next one begins; `above` bounds the first. -/
def AscendingFrom : Nat → CodeRanges → Bool
  | _, [] => true
  | above, (first, last) :: ranges =>
    decide (above ≤ first) && decide (first ≤ last) && AscendingFrom (last + 1) ranges

/-- The ranges are non-empty, disjoint and in ascending order. -/
def Ascending (ranges : CodeRanges) : Prop := AscendingFrom 0 ranges = true

instance (ranges : CodeRanges) : Decidable ranges.Ascending :=
  inferInstanceAs (Decidable (_ = true))

theorem le_of_mem_ascendingFrom : ∀ {above : Nat} {ranges : CodeRanges},
    AscendingFrom above ranges = true → ∀ r ∈ ranges, above ≤ r.1
  | _, [], _, _, h => by simp at h
  | above, (first, last) :: ranges, h, r, hr => by
    simp only [AscendingFrom, Bool.and_eq_true, decide_eq_true_eq] at h
    rcases List.mem_cons.1 hr with rfl | hr
    · exact h.1.1
    · have := le_of_mem_ascendingFrom h.2 r hr
      omega

theorem has_eq_true_iff_of_ascendingFrom : ∀ {above : Nat} {ranges : CodeRanges} {n : Nat},
    AscendingFrom above ranges = true →
    (ranges.has n = true ↔ ∃ r ∈ ranges, r.1 ≤ n ∧ n ≤ r.2)
  | _, [], _, _ => by simp [has]
  | above, (first, last) :: ranges, n, h => by
    simp only [AscendingFrom, Bool.and_eq_true, decide_eq_true_eq] at h
    have ih := has_eq_true_iff_of_ascendingFrom (n := n) h.2
    have hle := le_of_mem_ascendingFrom h.2
    by_cases hn : n < first
    · simp only [has, hn, if_true, Bool.false_eq_true, false_iff]
      rintro ⟨r, hr, h1, -⟩
      rcases List.mem_cons.1 hr with rfl | hr
      · exact absurd h1 (by simpa using hn)
      · have := hle r hr
        omega
    · have hf : first ≤ n := by omega
      simp [has, hn, ih, hf]

/-- Membership in ascending ranges is membership in one of them. -/
theorem has_eq_true_iff {ranges : CodeRanges} (h : ranges.Ascending) {n : Nat} :
    ranges.has n = true ↔ ∃ r ∈ ranges, r.1 ≤ n ∧ n ≤ r.2 :=
  has_eq_true_iff_of_ascendingFrom h

/-- Whether every code point of the ranges passes the test. -/
def allMembers (ranges : CodeRanges) (test : Nat → Bool) : Bool :=
  List.all ranges fun r => (List.range (r.2 + 1 - r.1)).all fun i => test (r.1 + i)

theorem allMembers_has {ranges : CodeRanges} {test : Nat → Bool} (ha : ranges.Ascending)
    (h : ranges.allMembers test = true) {n : Nat} (hn : ranges.has n = true) :
    test n = true := by
  obtain ⟨r, hr, h1, h2⟩ := (has_eq_true_iff ha).1 hn
  have h3 := List.all_eq_true.1 (List.all_eq_true.1 h r hr) (n - r.1)
    (List.mem_range.2 (by omega))
  simpa [Nat.add_sub_cancel' h1] using h3

end CodeRanges
end Text
end NestedQuery
