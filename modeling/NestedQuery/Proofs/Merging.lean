/-
# Merged runs are in order

If what comes before what orders the items but for ties, merging two runs
from the front and from the back gives the same list, the one in which all
items are in order. So do both ends at once: each of them takes its share of
that list, the two shares meet, and a short list is sorted.

Items are told apart by where they were, so here they are the elements of a
linear order, and those of the first run are less than those of the second.
Whatever comes out is a permutation of the items, also where the order
contradicts itself. Both are said at once: `Fit` is what makes the order and
the items fit to be sorted, and if it is `False` the permutation is left.

Key definitions: `Sorting.Delivers`, `Sorting.Sorts`.
Key theorems: `Sorting.Sorts.merge`, `Sorting.Sorts.mergeHalves`,
`Sorting.pairwise_sortFour`, `Sorting.sortShort_delivers`.
-/
import Mathlib.Data.List.Sort
import NestedQuery.Proofs.Insertion
import NestedQuery.Sorting.Merge

namespace NestedQuery
namespace Sorting

/-! ### Outcomes -/

section

variable {β γ : Type} {Fit : Prop} {P P' : β → Prop} {Q : γ → Prop}

/-- If something comes out it has the property, and something does if all is fit. -/
structure Delivers (Fit : Prop) (P : β → Prop) (outcome : Option β) : Prop where
  isSome : Fit → outcome.isSome
  holds : ∀ b, outcome = some b → P b

namespace Delivers

theorem some {b : β} (h : P b) : Delivers Fit P (some b) :=
  ⟨fun _ => rfl, fun _ hb => Option.some.inj hb ▸ h⟩

theorem bind {x : Option β} {f : β → Option γ} (hx : Delivers Fit P x)
    (hf : ∀ b, P b → Delivers Fit Q (f b)) : Delivers Fit Q (x >>= f) := by
  cases x with
  | none => exact ⟨fun hfit => (nomatch hx.isSome hfit), nofun⟩
  | some b => exact hf b (hx.holds b rfl)

theorem mono {x : Option β} (hx : Delivers Fit P x) (h : ∀ b, P b → P' b) : Delivers Fit P' x :=
  ⟨hx.isSome, fun b hb => h b (hx.holds b hb)⟩

end Delivers

end

/-! ### Merging two lists -/

section

variable {α : Type} {ahead before : α → α → Bool} {S : α → α → Prop}

/-- A merge is in an order that says which of two items is ahead. -/
theorem pairwise_merge (htrans : ∀ a b c, S a b → S b c → S a c) :
    ∀ {xs ys : List α}, xs.Pairwise S → ys.Pairwise S →
      (∀ x ∈ xs, ∀ y ∈ ys, (ahead x y = true → S x y) ∧ (ahead x y = false → S y x)) →
      (xs.merge ys ahead).Pairwise S
  | [], ys, _, hys, _ => by rwa [List.nil_merge]
  | x :: xs, [], hxs, _, _ => by rwa [List.merge_right]
  | x :: xs, y :: ys, hxs, hys, h => by
    obtain ⟨hx, hxs'⟩ := List.pairwise_cons.1 hxs
    obtain ⟨hy, hys'⟩ := List.pairwise_cons.1 hys
    obtain ⟨hxy, hyx⟩ := h x List.mem_cons_self y List.mem_cons_self
    rw [List.cons_merge_cons]
    split
    next hahead =>
      refine List.pairwise_cons.2 ⟨fun z hz => ?_, pairwise_merge htrans hxs' hys fun x hx =>
        h x (List.mem_cons_of_mem _ hx)⟩
      rcases List.mem_merge.1 hz with hz | hz
      · exact hx z hz
      · rcases List.mem_cons.1 hz with rfl | hz
        · exact hxy hahead
        · exact htrans x y z (hxy hahead) (hy z hz)
    next hahead =>
      have hyx : S y x := hyx (Bool.eq_false_iff.2 hahead)
      refine List.pairwise_cons.2 ⟨fun z hz => ?_, pairwise_merge htrans hxs hys' fun x hx y hy =>
        h x hx y (List.mem_cons_of_mem _ hy)⟩
      rcases List.mem_merge.1 hz with hz | hz
      · rcases List.mem_cons.1 hz with rfl | hz
        · exact hyx
        · exact htrans y x z hyx (hx z hz)
      · exact hy z hz

theorem mergeUp_perm (before : α → α → Bool) (left right : List α) :
    (mergeUp before left right).Perm (left ++ right) :=
  List.merge_perm_append _

theorem mergeDown_perm (before : α → α → Bool) (left right : List α) :
    (mergeDown before left right).Perm (left ++ right) := by
  have h : (mergeDown before left right).Perm (right.reverse ++ left.reverse) :=
    (List.reverse_perm _).trans (List.merge_perm_append _)
  rw [← List.reverse_append] at h
  exact h.trans (List.reverse_perm _)

/-- The first items of a merge are the first of either list, and what remains is merged on. -/
theorem exists_takeMerged (ahead : α → α → Bool) (n : ℕ) {xs ys : List α} (hx : n ≤ xs.length)
    (hy : n ≤ ys.length) :
    ∃ taken a b, a + b = n ∧ takeMerged ahead n xs ys = (taken, xs.drop a, ys.drop b) ∧
      taken.Perm (xs.take a ++ ys.take b) ∧
      xs.merge ys ahead = taken ++ (xs.drop a).merge (ys.drop b) ahead := by
  induction n generalizing xs ys with
  | zero => exact ⟨[], 0, 0, rfl, by cases xs <;> cases ys <;> rfl, .nil, by simp⟩
  | succ n ih =>
    obtain ⟨x, xs, rfl⟩ := List.exists_cons_of_length_pos (Nat.zero_lt_of_lt hx)
    obtain ⟨y, ys, rfl⟩ := List.exists_cons_of_length_pos (Nat.zero_lt_of_lt hy)
    rw [List.length_cons] at hx hy
    rw [takeMerged, List.cons_merge_cons]
    split
    · have hlen : n ≤ (y :: ys).length := by
        rw [List.length_cons]
        omega
      obtain ⟨taken, a, b, hab, htake, hperm, hmerge⟩ := ih (Nat.le_of_succ_le_succ hx) hlen
      refine ⟨x :: taken, a + 1, b, by omega, by rw [htake]; rfl, hperm.cons x, ?_⟩
      rw [hmerge]
      rfl
    · have hlen : n ≤ (x :: xs).length := by
        rw [List.length_cons]
        omega
      obtain ⟨taken, a, b, hab, htake, hperm, hmerge⟩ := ih hlen (Nat.le_of_succ_le_succ hy)
      refine ⟨y :: taken, a, b + 1, by omega, by rw [htake]; rfl, ?_, ?_⟩
      · exact (hperm.cons y).trans List.perm_middle.symm
      · rw [hmerge]
        rfl

/-- A merge begins with the first item of one of the lists. -/
theorem take_one_of_merge {xs ys zs : List α} {z : α} (h : xs.merge ys ahead = z :: zs) :
    xs.take 1 = [z] ∨ ys.take 1 = [z] := by
  cases xs with
  | nil =>
    rw [List.nil_merge] at h
    exact .inr (by rw [h]; rfl)
  | cons x xs =>
    cases ys with
    | nil =>
      rw [List.merge_right] at h
      exact .inl (by rw [h]; rfl)
    | cons y ys =>
      rw [List.cons_merge_cons] at h
      split at h
      · exact .inl (by rw [← (List.cons.inj h).1]; rfl)
      · exact .inr (by rw [← (List.cons.inj h).1]; rfl)

/-- What the two ends take, and when they meet. -/
theorem exists_mergeHalves (before : α → α → Bool) {left right : List α}
    (hlen : left.length ≤ right.length) :
    ∃ front back a b c d, a + b = left.length ∧ c + d = left.length ∧
      front.Perm (left.take a ++ right.take b) ∧
      back.Perm (left.drop (left.length - c) ++ right.drop (right.length - d)) ∧
      (∃ rest, rest = (left.drop a).merge (right.drop b) (fun l r => !before r l) ∧
        mergeUp before left right = front ++ rest) ∧
      (∃ rest, mergeDown before left right = rest ++ back) ∧
      mergeHalves before left right =
        if left.length - a + (left.length - c) = left.length then
          some (front ++ (right.drop b).take (right.length - left.length) ++ back)
        else if left.length - a + (left.length - c) = right.length then
          some (front ++ (left.drop a).take (right.length - left.length) ++ back)
        else none := by
  obtain ⟨front, a, b, hab, hfront, hfrontPerm, hup⟩ :=
    exists_takeMerged (fun l r => !before r l) left.length le_rfl hlen
  have hlen' : left.length ≤ right.reverse.length := by rwa [List.length_reverse]
  obtain ⟨back, d, c, hdc, hback, hbackPerm, hdown⟩ :=
    exists_takeMerged (fun r l => !before r l) left.length hlen' (List.length_reverse).ge
  refine ⟨front, back.reverse, a, b, c, d, hab, by omega, hfrontPerm, ?_, ⟨_, rfl, hup⟩,
    ⟨_, by rw [mergeDown, hdown, List.reverse_append]⟩, ?_⟩
  · rw [List.take_reverse, List.take_reverse, ← List.reverse_append] at hbackPerm
    exact (List.reverse_perm _).trans (hbackPerm.trans (List.reverse_perm _))
  · simp only [mergeHalves, hfront, hback, List.length_drop, List.length_reverse]

end

variable {α : Type} [LinearOrder α] {Fit : Prop} {before : α → α → Bool}
  {items sorted sorted' left right first second : List α}

/-! ### Items in order -/

/-- A permutation of the items, and in order if all is fit. -/
structure Sorts (Fit : Prop) (before : α → α → Bool) (items sorted : List α) : Prop where
  perm : sorted.Perm items
  inOrder : Fit → sorted.Pairwise (InOrder before (· < ·))

namespace InOrder

variable {a b c : α}

theorem of_lt (h : before b a = false) (hab : a < b) : InOrder before (· < ·) a b :=
  ⟨h, fun _ => hab⟩

theorem transLT (hw : Weak before) (hab : InOrder before (· < ·) a b)
    (hbc : InOrder before (· < ·) b c) : InOrder before (· < ·) a c :=
  hab.trans hw (fun h h' => h.trans h') hbc

theorem antisymm (hab : InOrder before (· < ·) a b) (hba : InOrder before (· < ·) b a) : a = b :=
  ((hab.2 hba.1).asymm (hba.2 hab.1)).elim

end InOrder

/-- Items are in order in one way only. -/
theorem eq_of_inOrder (hperm : sorted.Perm sorted')
    (h : sorted.Pairwise (InOrder before (· < ·)))
    (h' : sorted'.Pairwise (InOrder before (· < ·))) : sorted = sorted' :=
  hperm.eq_of_pairwise (fun _ _ _ _ => InOrder.antisymm) h h'

theorem sorts_sort (hw : Fit → Weak before) (h : Fit → items.Pairwise (· < ·)) :
    Sorts Fit before items (sort before items) :=
  ⟨sort_perm before items, fun hfit => pairwise_sort (hw hfit) (h hfit)⟩

/-! ### Two runs -/

section

variable (hw : Weak before) (hleft : left.Pairwise (InOrder before (· < ·)))
  (hright : right.Pairwise (InOrder before (· < ·))) (hlt : ∀ l ∈ left, ∀ r ∈ right, l < r)

include hw hleft hright hlt

theorem pairwise_mergeUp : (mergeUp before left right).Pairwise (InOrder before (· < ·)) := by
  refine pairwise_merge (S := InOrder before (· < ·)) (fun _ _ _ => InOrder.transLT hw) hleft hright
    fun l hl r hr => ?_
  exact ⟨fun h => .of_lt (by simpa using h) (hlt l hl r hr), fun h => hw.inOrder (by simpa using h)⟩

theorem pairwise_mergeDown : (mergeDown before left right).Pairwise (InOrder before (· < ·)) := by
  refine List.pairwise_reverse.2 (pairwise_merge (S := fun b a => InOrder before (· < ·) a b)
    (fun _ _ _ hab hbc => hbc.transLT hw hab) (List.pairwise_reverse.2 hright)
    (List.pairwise_reverse.2 hleft) fun r hr l hl => ?_)
  rw [List.mem_reverse] at hr hl
  exact ⟨fun h => .of_lt (by simpa using h) (hlt l hl r hr), fun h => hw.inOrder (by simpa using h)⟩

/-- Both ends come to the same. -/
theorem mergeDown_eq_mergeUp : mergeDown before left right = mergeUp before left right :=
  eq_of_inOrder ((mergeDown_perm before left right).trans (mergeUp_perm before left right).symm)
    (pairwise_mergeDown hw hleft hright hlt) (pairwise_mergeUp hw hleft hright hlt)

end

theorem lt_of_mem_runs (hl : Sorts Fit before first left) (hr : Sorts Fit before second right)
    (h : (first ++ second).Pairwise (· < ·)) : ∀ l ∈ left, ∀ r ∈ right, l < r := by
  intro l hmem r hmem'
  exact (List.pairwise_append.1 h).2.2 l (hl.perm.mem_iff.1 hmem) r (hr.perm.mem_iff.1 hmem')

theorem Sorts.merge (hw : Fit → Weak before) (h : Fit → (first ++ second).Pairwise (· < ·))
    (hl : Sorts Fit before first left) (hr : Sorts Fit before second right) :
    Sorts Fit before (first ++ second) (merge before left right) := by
  unfold Sorting.merge
  split
  · exact ⟨(mergeUp_perm before left right).trans (hl.perm.append hr.perm), fun hfit =>
      pairwise_mergeUp (hw hfit) (hl.inOrder hfit) (hr.inOrder hfit) (lt_of_mem_runs hl hr (h hfit))⟩
  · exact ⟨(mergeDown_perm before left right).trans (hl.perm.append hr.perm), fun hfit =>
      pairwise_mergeDown (hw hfit) (hl.inOrder hfit) (hr.inOrder hfit)
        (lt_of_mem_runs hl hr (h hfit))⟩

/-! ### Both ends at once -/

section

variable {front middle back : List α} {i j k l : ℕ}

/-- Three shares of two lists that follow each other in both are all of the two. -/
theorem perm_of_shares (hfront : front.Perm (left.take i ++ right.take j))
    (hmiddle : middle.Perm ((left.drop i).take k ++ (right.drop j).take l))
    (hback : back.Perm (left.drop (i + k) ++ right.drop (j + l))) :
    (front ++ middle ++ back).Perm (left ++ right) := by
  have hsplit : ∀ (xs : List α) (i k : ℕ),
      xs = xs.take i ++ ((xs.drop i).take k ++ xs.drop (i + k)) := by
    intro xs i k
    rw [← List.drop_drop, List.take_append_drop, List.take_append_drop]
  rw [List.perm_iff_count]
  intro x
  have hf := hfront.count_eq x
  have hm := hmiddle.count_eq x
  have hb := hback.count_eq x
  have hl := congrArg (List.count x) (hsplit left i k)
  have hr := congrArg (List.count x) (hsplit right j l)
  simp only [List.count_append] at hf hm hb hl hr ⊢
  omega

end

theorem perm_of_mergeHalves (hlen : left.length ≤ right.length)
    (h : mergeHalves before left right = some sorted) : sorted.Perm (left ++ right) := by
  obtain ⟨front, back, a, b, c, d, hab, hcd, hfront, hback, -, -, heq⟩ :=
    exists_mergeHalves before hlen
  rw [heq] at h
  split at h
  next hmeet =>
    cases h
    have hc : left.length - c = a + 0 := by omega
    have hd : right.length - d = b + (right.length - left.length) := by omega
    rw [hc, hd] at hback
    exact perm_of_shares hfront (by simp) hback
  next =>
    split at h
    next hmeet =>
      cases h
      have hc : left.length - c = a + (right.length - left.length) := by omega
      have hd : right.length - d = b + 0 := by omega
      rw [hc, hd] at hback
      exact perm_of_shares hfront (by simp) hback
    next => cases h

/-- What the front leaves of the first run is what lies in the middle, and the share of the back. -/
theorem length_drop_eq_countP {ahead : α → α → Bool} {middle back : List α} {a b c d : ℕ}
    (hlt : ∀ l ∈ left, ∀ r ∈ right, l < r) (hc : c ≤ left.length)
    (hback : back.Perm (left.drop (left.length - c) ++ right.drop d))
    (hrest : middle ++ back = (left.drop a).merge (right.drop b) ahead) :
    left.length - a = middle.countP (· ∈ left) + c := by
  have hleft : ∀ n, (left.drop n).countP (· ∈ left) = left.length - n := by
    intro n
    rw [List.countP_eq_length.2 fun x hx => decide_eq_true (List.mem_of_mem_drop hx),
      List.length_drop]
  have hright : ∀ n, (right.drop n).countP (· ∈ left) = 0 := by
    refine fun n => List.countP_eq_zero.2 fun x hx hl => ?_
    exact lt_irrefl x (hlt x (of_decide_eq_true hl) x (List.mem_of_mem_drop hx))
  have hbackCount := hback.countP_eq (· ∈ left)
  have hmerged : (middle ++ back).Perm (left.drop a ++ right.drop b) :=
    hrest ▸ List.merge_perm_append ahead
  have hrestCount := hmerged.countP_eq (· ∈ left)
  rw [List.countP_append, List.countP_append, hleft, hright] at hrestCount
  rw [List.countP_append, hleft, hright] at hbackCount
  omega

section

variable (hw : Weak before) (hleft : left.Pairwise (InOrder before (· < ·)))
  (hright : right.Pairwise (InOrder before (· < ·))) (hlt : ∀ l ∈ left, ∀ r ∈ right, l < r)

include hw hleft hright hlt

/-- The two ends meet. -/
theorem mergeHalves_eq_some (hlen : left.length ≤ right.length)
    (hlen' : right.length ≤ left.length + 1) :
    mergeHalves before left right = some (mergeUp before left right) := by
  obtain ⟨front, back, a, b, c, d, hab, hcd, hfront, hback, ⟨rest, hrest, hup⟩, ⟨rest', hdown⟩,
    heq⟩ := exists_mergeHalves before hlen
  rw [mergeDown_eq_mergeUp hw hleft hright hlt] at hdown
  have hfrontLength : front.length = left.length := by
    rw [hfront.length_eq]
    simp
    omega
  have hbackLength : back.length = left.length := by
    rw [hback.length_eq]
    simp
    omega
  have hlength := (mergeUp_perm before left right).length_eq
  rw [List.length_append, hup, List.length_append] at hlength
  -- what the front leaves is the back, but for the item in the middle
  obtain ⟨middle, rfl⟩ : back <:+ rest :=
    List.suffix_of_suffix_length_le ⟨rest', hdown.symm⟩ ⟨front, hup.symm⟩ (by omega)
  rw [List.length_append] at hlength
  have hcount := length_drop_eq_countP hlt (by omega) hback hrest
  rw [heq, hup]
  by_cases hodd : right.length = left.length
  · obtain rfl : middle = [] := List.eq_nil_of_length_eq_zero (by omega)
    rw [List.countP_nil] at hcount
    rw [if_pos (by omega), hodd, Nat.sub_self, List.take_zero, List.append_nil]
    rfl
  · obtain ⟨x, rfl⟩ := List.length_eq_one_iff.1 (by omega : middle.length = 1)
    have hone : right.length - left.length = 1 := by omega
    have hfirst := take_one_of_merge hrest.symm
    by_cases hx : x ∈ left
    · have hcount : left.length - a = 1 + c := by
        rw [hcount, List.countP_singleton, if_pos (decide_eq_true hx)]
      have hmiddle : (left.drop a).take 1 = [x] := hfirst.resolve_right fun h => by
        have hmem : x ∈ right.drop b := List.mem_of_mem_take (h ▸ List.mem_singleton_self x)
        exact lt_irrefl x (hlt x hx x (List.mem_of_mem_drop hmem))
      rw [if_neg (by omega), if_pos (by omega), hone, hmiddle, List.append_assoc]
    · have hcount : left.length - a = c := by
        rw [hcount, List.countP_singleton, if_neg (by simpa using hx), Nat.zero_add]
      have hmiddle : (right.drop b).take 1 = [x] := hfirst.resolve_left fun h => by
        have hmem : x ∈ left.drop a := List.mem_of_mem_take (h ▸ List.mem_singleton_self x)
        exact hx (List.mem_of_mem_drop hmem)
      rw [if_pos (by omega), hone, hmiddle, List.append_assoc]

end

theorem Sorts.mergeHalves (hw : Fit → Weak before) (h : Fit → (first ++ second).Pairwise (· < ·))
    (hl : Sorts Fit before first left) (hr : Sorts Fit before second right)
    (hlen : left.length ≤ right.length) (hlen' : right.length ≤ left.length + 1) :
    Delivers Fit (Sorts Fit before (first ++ second)) (mergeHalves before left right) := by
  have hmerged : Fit → Sorting.mergeHalves before left right = some (mergeUp before left right) :=
    fun hfit => mergeHalves_eq_some (hw hfit) (hl.inOrder hfit) (hr.inOrder hfit)
      (lt_of_mem_runs hl hr (h hfit)) hlen hlen'
  refine ⟨fun hfit => by rw [hmerged hfit]; rfl, fun sorted hsorted => ⟨?_, fun hfit => ?_⟩⟩
  · exact (perm_of_mergeHalves hlen hsorted).trans (hl.perm.append hr.perm)
  · rw [hmerged hfit, Option.some.injEq] at hsorted
    rw [← hsorted]
    exact pairwise_mergeUp (hw hfit) (hl.inOrder hfit) (hr.inOrder hfit)
      (lt_of_mem_runs hl hr (h hfit))

/-! ### Short lists -/

section

variable {x y z w a b c d : α}

omit [LinearOrder α] in
theorem sortTwo_eq_or (before : α → α → Bool) (x y : α) :
    sortTwo before x y = (x, y) ∨ sortTwo before x y = (y, x) := by
  unfold sortTwo
  split
  · exact .inr rfl
  · exact .inl rfl

theorem inOrder_sortTwo (hw : Weak before) (hlt : x < y) :
    InOrder before (· < ·) (sortTwo before x y).1 (sortTwo before x y).2 := by
  unfold sortTwo
  split
  next hbefore => exact hw.inOrder hbefore
  next htie => exact .of_lt (Bool.eq_false_iff.2 htie) hlt

theorem mergePairs_perm (before : α → α → Bool) (a b c d : α) :
    (mergePairs before (a, b) (c, d)).Perm [a, b, c, d] := by
  rw [List.perm_iff_count]
  intro t
  unfold mergePairs
  dsimp only
  split_ifs <;> simp only [List.count_cons, List.count_nil] <;> omega

theorem sortFour_perm (before : α → α → Bool) (x y z w : α) :
    (sortFour before x y z w).Perm [x, y, z, w] := by
  unfold sortFour
  rcases sortTwo_eq_or before x y with h | h <;> rcases sortTwo_eq_or before z w with h' | h' <;>
    rw [h, h'] <;> refine (mergePairs_perm _ _ _ _ _).trans ?_
  · exact .refl _
  · exact ((List.Perm.swap z w []).cons y).cons x
  · exact .swap x y _
  · exact (List.Perm.swap x y _).trans (((List.Perm.swap z w []).cons y).cons x)

theorem pairwise_of_steps (hw : Weak before) (hab : InOrder before (· < ·) a b)
    (hbc : InOrder before (· < ·) b c) (hcd : InOrder before (· < ·) c d) :
    [a, b, c, d].Pairwise (InOrder before (· < ·)) := by
  have hac := hab.transLT hw hbc
  have hbd := hbc.transLT hw hcd
  simp only [List.pairwise_cons, List.mem_cons, List.not_mem_nil, or_false, forall_eq_or_imp,
    forall_eq, IsEmpty.forall_iff, implies_true, List.Pairwise.nil, and_true]
  exact ⟨⟨hab, hac, hac.transLT hw hcd⟩, ⟨hbc, hbd⟩, hcd⟩

/-- An item of the first pair is compared with one of the second pair. -/
theorem inOrder_cases (hw : Weak before) (hlt : a < c) :
    (before c a = true ∧ InOrder before (· < ·) c a) ∨
      (before c a = false ∧ InOrder before (· < ·) a c) := by
  cases h : before c a with
  | true => exact .inl ⟨rfl, hw.inOrder h⟩
  | false => exact .inr ⟨rfl, .of_lt h hlt⟩

theorem pairwise_mergePairs (hw : Weak before) (hab : InOrder before (· < ·) a b)
    (hcd : InOrder before (· < ·) c d) (hac : a < c) (had : a < d) (hbc : b < c) (hbd : b < d) :
    (mergePairs before (a, b) (c, d)).Pairwise (InOrder before (· < ·)) := by
  unfold mergePairs
  obtain ⟨hca, sca⟩ | ⟨hca, sac⟩ := inOrder_cases hw hac <;>
    obtain ⟨hdb, sdb⟩ | ⟨hdb, sbd⟩ := inOrder_cases hw hbd <;>
    simp only [hca, hdb, if_true, if_false, Bool.false_eq_true]
  · -- both of the second pair go ahead
    obtain ⟨hda, sda⟩ | ⟨hda, sad⟩ := inOrder_cases hw had
    · rw [if_pos hda]
      exact pairwise_of_steps hw hcd sda hab
    · rw [if_neg (Bool.eq_false_iff.1 hda)]
      exact pairwise_of_steps hw sca sad sdb
  · rw [if_neg (Bool.eq_false_iff.1 hab.1)]
    exact pairwise_of_steps hw sca hab sbd
  · rw [if_neg (Bool.eq_false_iff.1 hcd.1)]
    exact pairwise_of_steps hw sac hcd sdb
  · obtain ⟨hcb, scb⟩ | ⟨hcb, sbc⟩ := inOrder_cases hw hbc
    · rw [if_pos hcb]
      exact pairwise_of_steps hw sac scb sbd
    · rw [if_neg (Bool.eq_false_iff.1 hcb)]
      exact pairwise_of_steps hw hab sbc hcd

theorem pairwise_sortFour (hw : Weak before) (h : [x, y, z, w].Pairwise (· < ·)) :
    (sortFour before x y z w).Pairwise (InOrder before (· < ·)) := by
  simp only [List.pairwise_cons, List.mem_cons, List.not_mem_nil, or_false, forall_eq_or_imp,
    forall_eq] at h
  obtain ⟨⟨hxy, hxz, hxw⟩, ⟨hyz, hyw⟩, hzw, -⟩ := h
  have hleft := inOrder_sortTwo hw hxy
  have hright := inOrder_sortTwo hw hzw
  unfold sortFour
  rcases sortTwo_eq_or before x y with h | h <;> rcases sortTwo_eq_or before z w with h' | h' <;>
    rw [h] at hleft ⊢ <;> rw [h'] at hright ⊢
  · exact pairwise_mergePairs hw hleft hright hxz hxw hyz hyw
  · exact pairwise_mergePairs hw hleft hright hxw hxz hyw hyz
  · exact pairwise_mergePairs hw hleft hright hyz hyw hxz hxw
  · exact pairwise_mergePairs hw hleft hright hyw hyz hxw hxz

end

theorem sorts_sortHalf (hw : Fit → Weak before) (h : Fit → items.Pairwise (· < ·)) :
    Sorts Fit before items (sortHalf before items) := by
  unfold sortHalf
  split
  next x y z w rest =>
    refine ⟨?_, fun hfit => ?_⟩
    · refine (List.reverse_perm _).trans ((sortReversed_perm before _ rest).trans ?_)
      exact List.perm_append_comm.trans
        (((List.reverse_perm _).trans (sortFour_perm before x y z w)).append_right rest)
    · obtain ⟨hfour, hrest, hlater⟩ :=
        List.pairwise_append.1 (show ([x, y, z, w] ++ rest).Pairwise (· < ·) from h hfit)
      refine List.pairwise_reverse.2 (pairwise_sortReversed (hw hfit) hrest (fun a ha => ?_) ?_)
      · rw [List.mem_reverse, (sortFour_perm before x y z w).mem_iff] at ha
        exact hlater a ha
      · exact List.pairwise_reverse.2 (pairwise_sortFour (hw hfit) hfour)
  next => exact sorts_sort hw h

/-- A short list is sorted. -/
theorem sortShort_delivers (hw : Fit → Weak before) (h : Fit → items.Pairwise (· < ·)) :
    Delivers Fit (Sorts Fit before items) (sortShort before items) := by
  have hhalves : items.take (items.length / 2) ++ items.drop (items.length / 2) = items :=
    List.take_append_drop _ _
  have hleft : Fit → (items.take (items.length / 2)).Pairwise (· < ·) := fun hfit =>
    (h hfit).sublist (List.take_sublist _ _)
  have hright : Fit → (items.drop (items.length / 2)).Pairwise (· < ·) := fun hfit =>
    (h hfit).sublist (List.drop_sublist _ _)
  have hmerge : ∀ {left right}, Sorts Fit before (items.take (items.length / 2)) left →
      Sorts Fit before (items.drop (items.length / 2)) right →
      Delivers Fit (Sorts Fit before items) (mergeHalves before left right) := by
    intro left right hl hr
    have hlen := hl.perm.length_eq
    have hlen' := hr.perm.length_eq
    rw [List.length_take] at hlen
    rw [List.length_drop] at hlen'
    have hdelivers := hl.mergeHalves hw (by rwa [hhalves]) hr (by omega) (by omega)
    rwa [hhalves] at hdelivers
  unfold sortShort
  dsimp only
  split
  next hshort =>
    refine .some ⟨.refl items, fun _ => ?_⟩
    match items, hshort with
    | [], _ => exact .nil
    | [x], _ => exact List.pairwise_singleton _ x
  next =>
    split
    · exact hmerge (sorts_sort hw hleft) (sorts_sort hw hright)
    · exact hmerge (sorts_sortHalf hw hleft) (sorts_sortHalf hw hright)

end Sorting
end NestedQuery
