/-
# Sorting by runs

A list of more than twenty items is cut into runs. A stretch that is in order
already and long enough is a run, turned round if it falls; otherwise a short
piece is sorted. Neighbouring runs are merged as a tree whose shape depends on
where they lie: each boundary of two runs has a depth, and runs wait on a
stack until a boundary comes that lies no deeper.

Of more than 64 items those that are not in order wait unsorted, and pieces of
them are joined as they are. When they are to be merged with a sorted run, or
would be too many, they are sorted by pivots: those before the pivot and the
others, each in the order in which they came. After too many pivots a piece is
sorted by runs again.

Items are compared by their places in the list, and what comes out is where
the items go.

Key definitions: `Sorting.sortEagerly`, `Sorting.sortByPivots`,
`Sorting.sortRuns`, `Sorting.arrange`.
-/
import NestedQuery.Sorting.Merge

namespace NestedQuery
namespace Sorting

variable {α R : Type}

/-! ### Cutting into runs -/

/-- The items behind `x` that go on in steps of one kind. -/
def stretch (step : α → α → Bool) : α → List α → List α
  | _, [] => []
  | x, y :: ys => if step x y then y :: stretch step y ys else []

/-- Whether a list starts with an item that comes before the one in front of it. -/
def falls (before : α → α → Bool) (x : α) : List α → Bool
  | [] => false
  | y :: _ => before y x

/-- The stretch at the start of a list that is in order already, if it has at least `good` items.
One that falls is turned round. -/
def naturalRun (before : α → α → Bool) (good : Nat) : List α → Option (List α)
  | [] => none
  | x :: xs =>
    if falls before x xs then
      let run := x :: stretch (fun a b => before b a) x xs
      if good ≤ run.length then some run.reverse else none
    else
      let run := x :: stretch (fun a b => !before b a) x xs
      if good ≤ run.length then some run else none

/-- A list cut into runs, each of which takes its items from the front. -/
def cut (run : List α → Option R) (size : R → Nat) : List α → Option (List R)
  | [] => some []
  | x :: xs => do
    let first ← run (x :: xs)
    let others ← cut run size (xs.drop (size first - 1))
    return first :: others
termination_by items => items.length

/-- How long a stretch of `n` items has to be to count as a run: half of few items, 64, or about
the square root of many. -/
def goodLength (n : Nat) : Nat :=
  if n ≤ 4096 then min (n - n / 2) 64
  else
    let root := Nat.pow 2 ((1 + n.log2) / 2)
    (root + n / root) / 2

/-! ### Merging neighbours -/

/-- How deep the boundary of two neighbouring runs lies that meet at `mid`, among `n` items: the
number of leading binary digits in which the middles of the two runs agree, both as parts of the
whole in 64 digits. -/
def depth (n left mid right : Nat) : Nat :=
  let scale := (Nat.pow 2 62 + n - 1) / n
  63 - ((scale * (left + mid)) ^^^ (scale * (mid + right))).log2

/-- The run joined with those that wait in front of it behind a boundary of at least this depth,
and those that go on waiting. -/
def collapse (join : R → R → Option R) (d : Nat) : R → List (R × Nat) → Option (R × List (R × Nat))
  | run, [] => some (run, [])
  | run, (front, d') :: waiting => do
    if d ≤ d' then
      let joined ← join front run
      collapse join d joined waiting
    else return (run, (front, d') :: waiting)

/-- A run, which ends at `stop`, joined with those that wait in front of it and those behind it. -/
def gather (join : R → R → Option R) (size : R → Nat) (n : Nat) :
    Nat → R → List (R × Nat) → List R → Option R
  | _, run, waiting, [] => do
    let (all, _) ← collapse join 0 run waiting
    return all
  | stop, run, waiting, next :: others => do
    let d := depth n (stop - size run) stop (stop + size next)
    let (front, waiting) ← collapse join d run waiting
    gather join size n (stop + size next) next ((front, d) :: waiting) others

/-- A list that is not empty, cut into runs that are joined to one. -/
def joinRuns (run : List α → Option R) (size : R → Nat) (join : R → R → Option R)
    (items : List α) : Option R := do
  match ← cut run size items with
  | [] => none
  | first :: others => gather join size items.length (size first) first [] others

/-! ### Runs that are sorted at once -/

/-- The run at the start of a list: a stretch that is in order already, or up to 32 items
sorted. -/
def eagerRun (before : α → α → Bool) (good : Nat) (items : List α) : Option (List α) :=
  match naturalRun before good items with
  | some run => some run
  | none => sortShort before (items.take 32)

/-- A list that is not empty, sorted by runs that are each sorted at once. -/
def sortEagerly (before : α → α → Bool) (items : List α) : Option (List α) :=
  let good := goodLength items.length
  joinRuns (eagerRun before good) List.length (fun left right => some (merge before left right))
    items

/-! ### Pivots -/

/-- The one of three places whose item lies between the others. -/
def median (less : Nat → Nat → Bool) (a b c : Nat) : Nat :=
  if less a b = less a c then if less b c = less a b then b else c else a

/-- A place near the median of some in the `n` places behind each of `a`, `b` and `c`. -/
def pseudoMedian (less : Nat → Nat → Bool) (n a b c : Nat) : Nat :=
  if n < 8 then median less a b c
  else
    let third (x : Nat) := pseudoMedian less (n / 8) x (x + n / 8 * 4) (x + n / 8 * 7)
    median less (third a) (third b) (third c)
termination_by n

theorem median_le {less : Nat → Nat → Bool} {a b c m : Nat} (ha : a ≤ m) (hb : b ≤ m)
    (hc : c ≤ m) : median less a b c ≤ m := by
  unfold median
  split
  · split
    · exact hb
    · exact hc
  · exact ha

theorem pseudoMedian_le (less : Nat → Nat → Bool) (n : Nat) {a b c m : Nat} (ha : a ≤ m)
    (hb : b ≤ m) (hc : c ≤ m) : pseudoMedian less n a b c ≤ m + (n - 1) := by
  induction n using Nat.strongRecOn generalizing a b c m with
  | ind n ih =>
    rw [pseudoMedian]
    split
    · have h : median less a b c ≤ m := median_le ha hb hc
      omega
    · have third : ∀ x ≤ m,
          pseudoMedian less (n / 8) x (x + n / 8 * 4) (x + n / 8 * 7) ≤ m + (n - 1) := by
        intro x hx
        have h : pseudoMedian less (n / 8) x (x + n / 8 * 4) (x + n / 8 * 7) ≤
            m + n / 8 * 7 + (n / 8 - 1) :=
          ih (n / 8) (by omega) (by omega) (by omega) (by omega)
        omega
      exact median_le (third a ha) (third b hb) (third c hc)

/-- Whether the item at a place comes before that at another one. -/
def lessAt (before : α → α → Bool) (items : List α) (i j : Nat) : Bool :=
  match items[i]?, items[j]? with
  | some a, some b => before a b
  | _, _ => false

/-- The place of the pivot. -/
def pivotPlace (before : α → α → Bool) (items : List α) : Nat :=
  let eighth := items.length / 8
  pseudoMedian (lessAt before items) eighth 0 (eighth * 4) (eighth * 7)

theorem pivotPlace_lt (before : α → α → Bool) {items : List α} (h : 32 < items.length) :
    pivotPlace before items < items.length := by
  let eighth := items.length / 8
  have hle : pivotPlace before items ≤ eighth * 7 + (eighth - 1) :=
    pseudoMedian_le _ eighth (by omega) (by omega) (by omega)
  omega

/-- A list sorted by pivots, at most `limit` of them one behind the other. No item comes before
`ancestor`, a pivot, if there is one. -/
def sortByPivots (before : α → α → Bool) : Nat → Option α → List α → Option (List α)
  | 0, _, items =>
    if items.length ≤ 32 then sortShort before items else sortEagerly before items
  | limit + 1, ancestor, items =>
    if h : items.length ≤ 32 then sortShort before items
    else do
      let place := pivotPlace before items
      have hplace : place < items.length := pivotPlace_lt before (by omega)
      let pivot := items[place]
      let front := items.take place
      let back := items.drop (place + 1)
      let low := front.filter (before · pivot) ++ back.filter (before · pivot)
      if ancestor.any (!before · pivot) || low.isEmpty then
        -- nothing comes before the pivot, so what it does not come before ties with it
        let ties := front.filter (!before pivot ·) ++ pivot :: back.filter (!before pivot ·)
        let high := front.filter (before pivot ·) ++ back.filter (before pivot ·)
        return ties ++ (← sortByPivots before limit none high)
      else
        let high := front.filter (!before · pivot) ++ pivot :: back.filter (!before · pivot)
        let lowSorted ← sortByPivots before limit ancestor low
        let highSorted ← sortByPivots before limit (some pivot) high
        return lowSorted ++ highSorted

/-! ### Runs that may wait -/

/-- A run, or items that wait to be sorted. -/
inductive Run (α : Type) where
  | sorted (items : List α)
  | unsorted (items : List α)

namespace Run

def items : Run α → List α
  | sorted items => items
  | unsorted items => items

/-- The items in order, by pivots if they waited. -/
def settle (before : α → α → Bool) : Run α → Option (List α)
  | sorted items => some items
  | unsorted items => sortByPivots before (2 * items.length.log2) none items

/-- Two neighbouring runs. Both wait on if there is room for them. -/
def join (before : α → α → Bool) (room : Nat) : Run α → Run α → Option (Run α)
  | unsorted left, unsorted right =>
    if left.length + right.length ≤ room then some (unsorted (left ++ right))
    else merged (unsorted left) (unsorted right)
  | left, right => merged left right
where
  /-- Two neighbouring runs merged. -/
  merged (left right : Run α) : Option (Run α) := do
    let left ← settle before left
    let right ← settle before right
    return sorted (merge before left right)

end Run

/-- The run at the start of a list: a stretch that is in order already, or `good` items that
wait. -/
def lazyRun (before : α → α → Bool) (good : Nat) (items : List α) : Run α :=
  match naturalRun before good items with
  | some run => .sorted run
  | none => .unsorted (items.take good)

/-- How many of `n` items may wait together: all of them up to 83333, and half of more. -/
def roomFor (n : Nat) : Nat := max (n - n / 2) (min n 83333)

/-- A list that is not empty, sorted by runs. -/
def sortLazily (before : α → α → Bool) (items : List α) : Option (List α) := do
  let good := goodLength items.length
  let all ← joinRuns (fun rest => some (lazyRun before good rest)) (fun run => run.items.length)
    (Run.join before (roomFor items.length)) items
  all.settle before

/-! ### Any list -/

/-- A list of many items, sorted by runs. None if the order is found to contradict itself. -/
def sortRuns (before : α → α → Bool) (items : List α) : Option (List α) :=
  if items.length ≤ 64 then sortEagerly before items else sortLazily before items

/-- Whether the item at a place comes before that at another one. -/
def byPlace (before : α → α → Bool) (items : List α) (i j : Fin items.length) : Bool :=
  before (items.get i) (items.get j)

/-- The items in order: up to twenty are inserted one after the other, and more are sorted by
runs. None if the order is found to contradict itself. -/
def arrange (before : α → α → Bool) (items : List α) : Option (List α) :=
  if items.length ≤ 20 then some (sort before items)
  else (sortRuns (byPlace before items) (List.finRange items.length)).map (List.map items.get)

end Sorting
end NestedQuery
