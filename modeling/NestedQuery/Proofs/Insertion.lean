/-
# Sorting by insertion

Sorting inserts the items one after the other. If what comes before what
orders the items but for ties, they end up in order, and items that tie stay
in the order in which they came (`Sorting.pairwise_sort`). There is one such
list (`Sorting.eq_sort`). Which list it is depends on nothing but which items
come before which (`Sorting.sort_map`).

Key definitions: `Sorting.InOrder`, `Sorting.Weak`.
Key theorems: `Sorting.pairwise_sort`, `Sorting.eq_sort`, `Sorting.sort_map`.
-/
import Mathlib.Data.List.Sort
import NestedQuery.Sorting

namespace NestedQuery
namespace Sorting

variable {α β : Type} {before : α → α → Bool}

/-! ### In order -/

section

variable {earlier : α → α → Prop} {items : List α} {a b c : α}

/-- The second item does not come before the first one, and if they tie the first one was there
earlier. -/
def InOrder (before : α → α → Bool) (earlier : α → α → Prop) (a b : α) : Prop :=
  before b a = false ∧ (before a b = false → earlier a b)

/-- What comes before what orders the items but for ties. -/
structure Weak (before : α → α → Bool) : Prop where
  asymm : ∀ {a b}, before a b = true → before b a = false
  trans : ∀ {a b c}, before b a = false → before c b = false → before c a = false

namespace Weak

theorem irrefl (hw : Weak before) (a : α) : before a a = false := by
  cases h : before a a with
  | false => rfl
  | true => exact h.symm.trans (hw.asymm h)

/-- What does not come before `a` stands where `a` does or behind it. -/
theorem before_of_not (hw : Weak before) (hba : before b a = false) (hbc : before b c = true) :
    before a c = true := by
  cases hac : before a c with
  | true => rfl
  | false =>
    have hfalse : before b c = false := hw.trans hac hba
    rw [hfalse] at hbc
    cases hbc

theorem before_of_not' (hw : Weak before) (hab : before a b = true) (hcb : before c b = false) :
    before a c = true := by
  cases hac : before a c with
  | true => rfl
  | false =>
    have hfalse : before a b = false := hw.trans hcb hac
    rw [hfalse] at hab
    cases hab

theorem before_trans (hw : Weak before) (hab : before a b = true) (hbc : before b c = true) :
    before a c = true :=
  hw.before_of_not' hab (hw.asymm hbc)

end Weak

/-- An item that comes before another one stands in front of it. -/
theorem Weak.inOrder (hw : Weak before) (h : before a b = true) : InOrder before earlier a b :=
  ⟨hw.asymm h, fun htie => by rw [h] at htie; cases htie⟩

theorem InOrder.trans (hw : Weak before) (htrans : ∀ {a b c}, earlier a b → earlier b c → earlier a c)
    (hab : InOrder before earlier a b) (hbc : InOrder before earlier b c) :
    InOrder before earlier a c := by
  refine ⟨hw.trans hab.1 hbc.1, fun hac => ?_⟩
  -- the outer two tie, so all three do
  have htie : before a b = false := hw.trans hbc.1 hac
  have htie' : before b c = false := hw.trans hac hab.1
  exact htrans (hab.2 htie) (hbc.2 htie')

/-- An item that was there later is inserted in order. The last item of the list comes first. -/
theorem pairwise_insertLast (hw : Weak before) {x : α} {ys : List α}
    (hx : ∀ y ∈ ys, earlier y x) (h : ys.Pairwise fun b a => InOrder before earlier a b) :
    (insertLast before x ys).Pairwise fun b a => InOrder before earlier a b := by
  induction ys with
  | nil => exact List.pairwise_singleton _ _
  | cons y ys ih =>
    obtain ⟨hxy, hxs⟩ := List.forall_mem_cons.1 hx
    obtain ⟨hy, hys⟩ := List.pairwise_cons.1 h
    rw [insertLast]
    split
    next hbefore =>
      refine List.pairwise_cons.2 ⟨fun z hz => ?_, ih hxs hys⟩
      rcases List.mem_cons.1 ((insertLast_perm before x ys).mem_iff.1 hz) with rfl | hz
      · exact hw.inOrder hbefore
      · exact hy z hz
    next hstop =>
      have hstop : before x y = false := Bool.eq_false_iff.2 hstop
      refine List.pairwise_cons.2 ⟨fun z hz => ?_, h⟩
      rcases List.mem_cons.1 hz with rfl | hz
      · exact ⟨hstop, fun _ => hxy⟩
      · exact ⟨hw.trans (hy z hz).1 hstop, fun _ => hxs z hz⟩

theorem pairwise_sortReversed (hw : Weak before) {sorted items : List α}
    (hitems : items.Pairwise earlier) (hlater : ∀ y ∈ sorted, ∀ x ∈ items, earlier y x)
    (h : sorted.Pairwise fun b a => InOrder before earlier a b) :
    (sortReversed before sorted items).Pairwise fun b a => InOrder before earlier a b := by
  induction items generalizing sorted with
  | nil => exact h
  | cons x xs ih =>
    obtain ⟨hx, hxs⟩ := List.pairwise_cons.1 hitems
    refine ih hxs (fun y hy z hz => ?_)
      (pairwise_insertLast hw (fun y hy => hlater y hy x List.mem_cons_self) h)
    rcases List.mem_cons.1 ((insertLast_perm before x sorted).mem_iff.1 hy) with rfl | hy
    · exact hx z hz
    · exact hlater y hy z (List.mem_cons_of_mem _ hz)

/-- **Sorting is stable.** Of two items, the one behind does not come before the other, and if they
tie it was there later. -/
theorem pairwise_sort (hw : Weak before) (h : items.Pairwise earlier) :
    (sort before items).Pairwise (InOrder before earlier) :=
  List.pairwise_reverse.2 (pairwise_sortReversed hw h (by simp) .nil)

/-- A list of the items that is in order is the sorted list. -/
theorem eq_sort (hw : Weak before) (hasymm : ∀ a b, earlier a b → earlier b a → a = b)
    (hitems : items.Pairwise earlier) {sorted : List α} (hperm : sorted.Perm items)
    (hsorted : sorted.Pairwise (InOrder before earlier)) : sorted = sort before items := by
  have hantisymm : ∀ a b, InOrder before earlier a b → InOrder before earlier b a → a = b :=
    fun a b hab hba => hasymm a b (hab.2 hba.1) (hba.2 hab.1)
  exact (hperm.trans (sort_perm before items).symm).eq_of_pairwise
    (fun a b _ _ => hantisymm a b) hsorted (pairwise_sort hw hitems)

end

/-! ### Other names for the items -/

section

variable {before' : β → β → Bool} {f : α → β}

theorem insertLast_map (hf : ∀ a b, before' (f a) (f b) = before a b) (x : α) (ys : List α) :
    insertLast before' (f x) (ys.map f) = (insertLast before x ys).map f := by
  induction ys with
  | nil => rfl
  | cons y ys ih =>
    simp only [List.map_cons, insertLast, hf]
    split
    · rw [ih, List.map_cons]
    · rfl

theorem sortReversed_map (hf : ∀ a b, before' (f a) (f b) = before a b) (sorted xs : List α) :
    sortReversed before' (sorted.map f) (xs.map f) = (sortReversed before sorted xs).map f := by
  induction xs generalizing sorted with
  | nil => rfl
  | cons x xs ih =>
    simp only [List.map_cons, sortReversed]
    rw [insertLast_map hf, ih]

/-- The order of a sorted list does not depend on more than which items come before which. -/
theorem sort_map (hf : ∀ a b, before' (f a) (f b) = before a b) (xs : List α) :
    sort before' (xs.map f) = (sort before xs).map f := by
  have h := sortReversed_map hf [] xs
  rw [List.map_nil] at h
  rw [sort, sort, h, List.map_reverse]

end

end Sorting
end NestedQuery
