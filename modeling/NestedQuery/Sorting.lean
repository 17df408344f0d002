/-
# Stable sorting

Items are inserted one after the other: each one goes in front of the items
that it comes before, and behind all others. So items that come before none
of each other keep their order.

This is how up to twenty items are sorted, whatever comes before what. More
are sorted by runs: if what comes before what is an order in which items may
tie, they end up as here, and otherwise they may end up elsewhere, or be
found to have no order at all.

Key definitions: `Sorting.insertLast`, `Sorting.sort`.
Key theorem: `Sorting.sort_perm`.
-/
namespace NestedQuery
namespace Sorting

variable {α : Type}

/-- Inserts an item into a list whose last item comes first. The item moves over those that it
comes before and stops at the first one that it does not. -/
def insertLast (before : α → α → Bool) (x : α) : List α → List α
  | [] => [x]
  | y :: ys => if before x y then y :: insertLast before x ys else x :: y :: ys

/-- The items inserted one after the other, the last one first. -/
def sortReversed (before : α → α → Bool) : List α → List α → List α
  | sorted, [] => sorted
  | sorted, x :: xs => sortReversed before (insertLast before x sorted) xs

/-- The items in order, if what comes before what is one; otherwise where their insertion one after
the other leaves them. -/
def sort (before : α → α → Bool) (items : List α) : List α :=
  (sortReversed before [] items).reverse

theorem insertLast_perm (before : α → α → Bool) (x : α) (ys : List α) :
    (insertLast before x ys).Perm (x :: ys) := by
  induction ys with
  | nil => exact List.Perm.refl _
  | cons y ys ih =>
    unfold insertLast
    split
    · exact (ih.cons y).trans (List.Perm.swap x y ys)
    · exact List.Perm.refl _

theorem sortReversed_perm (before : α → α → Bool) (sorted items : List α) :
    (sortReversed before sorted items).Perm (items ++ sorted) := by
  induction items generalizing sorted with
  | nil => exact List.Perm.refl _
  | cons x xs ih =>
    exact (ih _).trans (((insertLast_perm before x sorted).append_left xs).trans
      List.perm_middle)

/-- Sorting permutes the items. -/
theorem sort_perm (before : α → α → Bool) (items : List α) : (sort before items).Perm items := by
  have h := sortReversed_perm before [] items
  rw [List.append_nil] at h
  exact (List.reverse_perm _).trans h

end Sorting
end NestedQuery
