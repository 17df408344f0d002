/-
# Merging

Two runs are lists that are in order, all items of the first one having been
there earlier. They are merged from the front, where the second run goes
ahead only with an item that comes before the one of the first run, or from
the back, where the first run goes last only with an item that the one of the
second run comes before.

A short list is cut in half, each half is sorted by insertion, and the halves
are merged from both ends at once, each end as far as half the items. If the
order does not contradict itself, the two ends meet. If they do not, items
would be lost and others doubled, and there is no result.

Key definitions: `Sorting.merge`, `Sorting.takeMerged`, `Sorting.mergeHalves`,
`Sorting.sortFour`, `Sorting.sortShort`.
-/
import NestedQuery.Sorting

namespace NestedQuery
namespace Sorting

variable {α : Type}

/-! ### Two runs -/

/-- Two runs merged from the front. -/
def mergeUp (before : α → α → Bool) (left right : List α) : List α :=
  left.merge right fun l r => !before r l

/-- Two runs merged from the back. -/
def mergeDown (before : α → α → Bool) (left right : List α) : List α :=
  (right.reverse.merge left.reverse fun r l => !before r l).reverse

/-- Two runs merged, from the end at which the shorter one lies. -/
def merge (before : α → α → Bool) (left right : List α) : List α :=
  if left.length ≤ right.length then mergeUp before left right else mergeDown before left right

/-! ### Both ends at once -/

/-- The first `n` items of two lists that are merged, and what remains of the two. -/
def takeMerged (ahead : α → α → Bool) : Nat → List α → List α → List α × List α × List α
  | n + 1, x :: xs, y :: ys =>
    if ahead x y then
      let (taken, xs, ys) := takeMerged ahead n xs (y :: ys)
      (x :: taken, xs, ys)
    else
      let (taken, xs, ys) := takeMerged ahead n (x :: xs) ys
      (y :: taken, xs, ys)
  | _, xs, ys => ([], xs, ys)

/-- Two runs merged from both ends, the second run being as long as the first one or longer by
one item. None if the ends do not meet. -/
def mergeHalves (before : α → α → Bool) (left right : List α) : Option (List α) :=
  let (front, left', right') := takeMerged (fun l r => !before r l) left.length left right
  let (back, _, left'') :=
    takeMerged (fun r l => !before r l) left.length right.reverse left.reverse
  let odd := right.length - left.length
  -- what the front and the back leave of the first run, together
  let remaining := left'.length + left''.length
  if remaining = left.length then some (front ++ right'.take odd ++ back.reverse)
  else if remaining = right.length then some (front ++ left'.take odd ++ back.reverse)
  else none

/-! ### Short lists -/

/-- Two items in order. -/
def sortTwo (before : α → α → Bool) (x y : α) : α × α := if before y x then (y, x) else (x, y)

/-- Two pairs that are in order, merged after three comparisons: the first and the last item come
first, then the order of the two that are left. -/
def mergePairs (before : α → α → Bool) : α × α → α × α → List α
  | (a, b), (c, d) =>
    let least := if before c a then c else a
    let greatest := if before d b then b else d
    let left := if before c a then a else if before d b then c else b
    let right := if before d b then d else if before c a then b else c
    if before right left then [least, right, left, greatest] else [least, left, right, greatest]

/-- Four items in order. -/
def sortFour (before : α → α → Bool) (x y z w : α) : List α :=
  mergePairs before (sortTwo before x y) (sortTwo before z w)

/-- The first four items in order, and the others inserted. -/
def sortHalf (before : α → α → Bool) : List α → List α
  | x :: y :: z :: w :: rest =>
    (sortReversed before (sortFour before x y z w).reverse rest).reverse
  | items => sort before items

/-- A short list in order. None if the order is found to contradict itself. -/
def sortShort (before : α → α → Bool) (items : List α) : Option (List α) :=
  let left := items.take (items.length / 2)
  let right := items.drop (items.length / 2)
  if items.length < 2 then some items
  else if items.length < 8 then mergeHalves before (sort before left) (sort before right)
  else mergeHalves before (sortHalf before left) (sortHalf before right)

end Sorting
end NestedQuery
