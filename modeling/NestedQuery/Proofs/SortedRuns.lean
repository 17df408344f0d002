/-
# Sorting by runs sorts

A list is cut into runs, each of them a sorted piece of it, and the pieces
follow each other in the list. Joining two neighbours gives a sorted piece
again, so what waits on the stack, the current run and the runs to come are
always the whole list, piece by piece (`collapse_delivers`, `gather_delivers`),
and in the end there is one run. Items that wait unsorted are a piece as it
stands; pivots sort it, since those before the pivot and the others keep the
order in which they came.

So if what comes before what orders the items but for ties, many items are
sorted as few are, to the one list that is in order (`arrange_eq_sort`). If it
does not there may be no result, but one that there is holds the same items
(`arrange_perm`).

Key definitions: `Sorting.Run.Holds`.
Key theorems: `Sorting.gather_delivers`, `Sorting.sortEagerly_delivers`,
`Sorting.sortByPivots_delivers`, `Sorting.arrange_eq_sort`,
`Sorting.arrange_perm`, `Sorting.arrange_map`.
-/
import NestedQuery.Proofs.Merging
import NestedQuery.Sorting.Runs

namespace NestedQuery
namespace Sorting

/-! ### Pieces joined to one -/

section

variable {α R : Type} [LinearOrder α] {Fit : Prop} {Holds : R → List α → Prop}
  {join : R → R → Option R}

/-- What waits holds pieces of the list, the last one first. -/
def Waiting (Holds : R → List α → Prop) (waiting : List (R × ℕ)) (pieces : List (List α)) : Prop :=
  List.Forall₂ (fun w piece => Holds w.1 piece) waiting pieces

section

variable (hjoin : ∀ l r first second, Holds l first → Holds r second →
  (Fit → (first ++ second).Pairwise (· < ·)) → Delivers Fit (Holds · (first ++ second)) (join l r))

include hjoin

theorem collapse_delivers (d : ℕ) {run : R} {piece : List α} {waiting : List (R × ℕ)}
    {pieces : List (List α)} (hrun : Holds run piece) (hwaiting : Waiting Holds waiting pieces)
    (h : Fit → (pieces.reverse.flatten ++ piece).Pairwise (· < ·)) :
    Delivers Fit (fun out => ∃ piece' pieces', Holds out.1 piece' ∧ Waiting Holds out.2 pieces' ∧
        pieces'.reverse.flatten ++ piece' = pieces.reverse.flatten ++ piece ∧
        (d = 0 → pieces' = []))
      (collapse join d run waiting) := by
  induction hwaiting generalizing run piece with
  | nil => exact .some ⟨piece, [], hrun, .nil, rfl, fun _ => rfl⟩
  | @cons w piece' waiting pieces hw hwaiting ih =>
    rw [List.reverse_cons, List.flatten_append, List.flatten_singleton, List.append_assoc] at h ⊢
    rw [collapse]
    split
    next hdeep =>
      refine (hjoin _ _ _ _ hw hrun fun hfit => (List.pairwise_append.1 (h hfit)).2.1).bind ?_
      exact fun joined hjoined => ih hjoined h
    next hdeep =>
      refine .some ⟨piece, piece' :: pieces, hrun, .cons hw hwaiting, ?_, fun hd => ?_⟩
      · rw [List.reverse_cons, List.flatten_append, List.flatten_singleton, List.append_assoc]
      · exact (hdeep (hd ▸ Nat.zero_le _)).elim

/-- The run, those that wait in front of it and those behind it become one. -/
theorem gather_delivers (size : R → ℕ) (n stop : ℕ) {run : R} {piece : List α}
    {waiting : List (R × ℕ)} {pieces : List (List α)} {others : List R}
    {otherPieces : List (List α)} (hrun : Holds run piece) (hwaiting : Waiting Holds waiting pieces)
    (hothers : List.Forall₂ Holds others otherPieces)
    (h : Fit → (pieces.reverse.flatten ++ piece ++ otherPieces.flatten).Pairwise (· < ·)) :
    Delivers Fit (Holds · (pieces.reverse.flatten ++ piece ++ otherPieces.flatten))
      (gather join size n stop run waiting others) := by
  have hfront : Fit → (pieces.reverse.flatten ++ piece).Pairwise (· < ·) :=
    fun hfit => (List.pairwise_append.1 (h hfit)).1
  induction hothers generalizing stop run piece waiting pieces with
  | nil =>
    rw [List.flatten_nil, List.append_nil, gather]
    refine (collapse_delivers hjoin 0 hrun hwaiting hfront).bind ?_
    rintro ⟨all, rest⟩ ⟨piece', pieces', hall, -, hpieces, hnone⟩
    rw [hnone rfl, List.reverse_nil, List.flatten_nil, List.nil_append] at hpieces
    exact .some (hpieces ▸ hall)
  | @cons next nextPiece others otherPieces hnext hothers ih =>
    rw [gather]
    refine (collapse_delivers hjoin _ hrun hwaiting hfront).bind ?_
    rintro ⟨front, rest⟩ ⟨piece', pieces', hfrontHolds, hrest, hpieces, -⟩
    have hsame : (piece' :: pieces').reverse.flatten ++ nextPiece ++ otherPieces.flatten =
        pieces.reverse.flatten ++ piece ++ (nextPiece :: otherPieces).flatten := by
      rw [List.reverse_cons, List.flatten_append, List.flatten_singleton, hpieces,
        List.flatten_cons, List.append_assoc]
    have h' : Fit → ((piece' :: pieces').reverse.flatten ++ nextPiece ++
        otherPieces.flatten).Pairwise (· < ·) := by
      rwa [hsame]
    rw [← hsame]
    exact ih _ hnext (.cons hfrontHolds hrest) h' fun hfit => (List.pairwise_append.1 (h' hfit)).1

end

/-- Each run takes a piece of the list. -/
theorem cut_delivers {run : List α → Option R} {size : R → ℕ}
    (hrun : ∀ items, items ≠ [] → (Fit → items.Pairwise (· < ·)) →
      Delivers Fit (fun r => 0 < size r ∧ Holds r (items.take (size r))) (run items))
    {items : List α} (h : Fit → items.Pairwise (· < ·)) :
    Delivers Fit (fun runs => ∃ pieces, List.Forall₂ Holds runs pieces ∧ pieces.flatten = items)
      (cut run size items) := by
  induction hn : items.length using Nat.strong_induction_on generalizing items with
  | _ n ih =>
    cases items with
    | nil =>
      rw [cut]
      exact .some ⟨[], .nil, rfl⟩
    | cons x xs =>
      rw [cut]
      refine (hrun (x :: xs) (List.cons_ne_nil x xs) h).bind ?_
      rintro first ⟨hsize, hfirst⟩
      obtain ⟨k, hk⟩ := Nat.exists_eq_add_one_of_ne_zero hsize.ne'
      rw [hk, Nat.add_sub_cancel]
      rw [hk, List.take_succ_cons] at hfirst
      have hshorter : (xs.drop k).length < n := by
        rw [List.length_drop, ← hn, List.length_cons]
        omega
      have hrest : Fit → (xs.drop k).Pairwise (· < ·) := fun hfit =>
        ((List.pairwise_cons.1 (h hfit)).2).sublist (List.drop_sublist k xs)
      refine (ih _ hshorter hrest rfl).bind ?_
      rintro others ⟨pieces, hothers, hpieces⟩
      refine .some ⟨(x :: xs.take k) :: pieces, .cons hfirst hothers, ?_⟩
      rw [List.flatten_cons, hpieces, List.cons_append, List.take_append_drop]

theorem joinRuns_delivers (Holds : R → List α → Prop) {run : List α → Option R} {size : R → ℕ}
    (hrun : ∀ items, items ≠ [] → (Fit → items.Pairwise (· < ·)) →
      Delivers Fit (fun r => 0 < size r ∧ Holds r (items.take (size r))) (run items))
    (hjoin : ∀ l r first second, Holds l first → Holds r second →
      (Fit → (first ++ second).Pairwise (· < ·)) → Delivers Fit (Holds · (first ++ second)) (join l r))
    {items : List α} (hne : items ≠ []) (h : Fit → items.Pairwise (· < ·)) :
    Delivers Fit (Holds · items) (joinRuns run size join items) := by
  unfold joinRuns
  refine (cut_delivers hrun h).bind ?_
  rintro runs ⟨pieces, hruns, rfl⟩
  cases hruns with
  | nil => exact (hne rfl).elim
  | cons hfirst hothers => exact gather_delivers hjoin _ _ _ hfirst .nil hothers h

end

/-! ### Stretches that are in order already -/

section

variable {α : Type}

/-- A stretch is the start of what stands behind its first item. -/
theorem exists_stretch (step : α → α → Bool) (x : α) (xs : List α) :
    ∃ rest, xs = stretch step x xs ++ rest := by
  induction xs generalizing x with
  | nil => exact ⟨[], rfl⟩
  | cons y ys ih =>
    rw [stretch]
    split
    · obtain ⟨rest, hrest⟩ := ih y
      exact ⟨rest, congrArg (y :: ·) hrest⟩
    · exact ⟨y :: ys, rfl⟩

theorem isChain_stretch (step : α → α → Bool) (x : α) (xs : List α) :
    (x :: stretch step x xs).IsChain (step · ·) := by
  induction xs generalizing x with
  | nil => exact .singleton x
  | cons y ys ih =>
    rw [stretch]
    split
    next h => exact .cons_cons h (ih y)
    next => exact .singleton x

end

section

variable {α : Type} [LinearOrder α] {Fit : Prop} {before : α → α → Bool} {items : List α}

/-- A stretch that is in order already is the first piece of the list, sorted. -/
theorem naturalRun_sorts (hw : Fit → Weak before) (h : Fit → items.Pairwise (· < ·)) {good : ℕ}
    {run : List α} (hrun : naturalRun before good items = some run) :
    0 < run.length ∧ Sorts Fit before (items.take run.length) run := by
  cases items with
  | nil => cases hrun
  | cons x xs =>
    have hpiece : ∀ step : α → α → Bool,
        (x :: xs).take (x :: stretch step x xs).length = x :: stretch step x xs := by
      intro step
      obtain ⟨rest, hrest⟩ := exists_stretch step x xs
      have hall : x :: xs = (x :: stretch step x xs) ++ rest := congrArg (x :: ·) hrest
      rw [congrArg (List.take _) hall, List.take_left']
      rfl
    -- along a stretch the items were there one after the other
    have hlater : ∀ step : α → α → Bool, Fit → (x :: stretch step x xs).Pairwise (· < ·) := by
      intro step hfit
      rw [← hpiece step]
      exact (h hfit).sublist (List.take_sublist _ _)
    rw [naturalRun] at hrun
    split at hrun
    next =>
      simp only [Option.ite_none_right_eq_some, Option.some.injEq] at hrun
      obtain ⟨-, rfl⟩ := hrun
      rw [List.length_reverse, hpiece]
      refine ⟨Nat.succ_pos _, List.reverse_perm _, fun hfit => List.pairwise_reverse.2 ?_⟩
      let falling (a b : α) : Prop := before b a = true
      have htrans : Trans falling falling falling := ⟨fun hab hbc => (hw hfit).before_trans hbc hab⟩
      have hpairs : (x :: stretch (fun a b => before b a) x xs).Pairwise falling :=
        (isChain_stretch _ x xs).pairwise
      exact hpairs.imp fun hab => (hw hfit).inOrder hab
    next =>
      simp only [Option.ite_none_right_eq_some, Option.some.injEq] at hrun
      obtain ⟨-, rfl⟩ := hrun
      rw [hpiece]
      refine ⟨Nat.succ_pos _, .refl _, fun hfit => ?_⟩
      let rising (a b : α) : Prop := before b a = false
      have htrans : Trans rising rising rising := ⟨fun hab hbc => (hw hfit).trans hab hbc⟩
      have hsteps : (x :: stretch (fun a b => !before b a) x xs).IsChain rising :=
        (isChain_stretch _ x xs).imp fun a b hab => by simpa using hab
      exact (hsteps.pairwise.and (hlater _ hfit)).imp fun hab => .of_lt hab.1 hab.2

/-! ### Runs that are sorted at once -/

theorem eagerRun_delivers (hw : Fit → Weak before) (good : ℕ) (hne : items ≠ [])
    (h : Fit → items.Pairwise (· < ·)) :
    Delivers Fit (fun run => 0 < run.length ∧ Sorts Fit before (items.take run.length) run)
      (eagerRun before good items) := by
  unfold eagerRun
  split
  next run hrun => exact .some (naturalRun_sorts hw h hrun)
  next =>
    refine (sortShort_delivers hw fun hfit => (h hfit).sublist (List.take_sublist _ _)).mono ?_
    intro run hrun
    have hlength := hrun.perm.length_eq
    have hpos := List.length_pos_iff.2 hne
    rw [List.length_take] at hlength
    have htake : items.take run.length = items.take 32 := by
      rw [hlength, List.take_eq_take_iff]
      omega
    exact ⟨by omega, htake ▸ hrun⟩

theorem sortEagerly_delivers (hw : Fit → Weak before) (hne : items ≠ [])
    (h : Fit → items.Pairwise (· < ·)) :
    Delivers Fit (Sorts Fit before items) (sortEagerly before items) := by
  refine joinRuns_delivers (fun run piece => Sorts Fit before piece run)
    (fun items hne h => eagerRun_delivers hw _ hne h) (fun left right first second hl hr h => ?_) hne h
  exact .some (hl.merge hw h hr)

end

/-! ### Pivots -/

section

variable {α : Type} {keep : α → Bool} {front back : List α} {pivot x : α}

theorem without_sublist (keep : α → Bool) (front back : List α) (pivot : α) :
    (front.filter keep ++ back.filter keep).Sublist (front ++ pivot :: back) :=
  List.filter_sublist.append (List.filter_sublist.cons pivot)

theorem with_sublist (keep : α → Bool) (front back : List α) (pivot : α) :
    (front.filter keep ++ pivot :: back.filter keep).Sublist (front ++ pivot :: back) :=
  List.filter_sublist.append (List.filter_sublist.cons_cons pivot)

theorem mem_with
    (hx : x ∈ front.filter keep ++ pivot :: back.filter keep) : x = pivot ∨ keep x = true := by
  simp only [List.mem_append, List.mem_cons, List.mem_filter] at hx
  tauto

theorem keep_of_mem_without
    (hx : x ∈ front.filter keep ++ back.filter keep) : keep x = true := by
  rw [← List.filter_append] at hx
  exact (List.mem_filter.1 hx).2

end

section

variable {α : Type} [LinearOrder α] {Fit : Prop} {before : α → α → Bool} {items : List α}

/-- Items on both sides, each side sorted. -/
theorem Sorts.append {low high lowSorted highSorted : List α} (hl : Sorts Fit before low lowSorted)
    (hr : Sorts Fit before high highSorted) (hperm : (low ++ high).Perm items)
    (h : Fit → ∀ a ∈ low, ∀ b ∈ high, before a b = true) (hw : Fit → Weak before) :
    Sorts Fit before items (lowSorted ++ highSorted) := by
  refine ⟨(hl.perm.append hr.perm).trans hperm, fun hfit => List.pairwise_append.2 ?_⟩
  refine ⟨hl.inOrder hfit, hr.inOrder hfit, fun a ha b hb => (hw hfit).inOrder ?_⟩
  exact h hfit a (hl.perm.mem_iff.1 ha) b (hr.perm.mem_iff.1 hb)

section

variable {front back : List α} {pivot : α}

/-- The items on both sides of a pivot are all items. -/
theorem sides_perm (goesLow : α → Bool) (front back : List α) (pivot : α) :
    (front.filter goesLow ++ back.filter goesLow ++
      (front.filter (!goesLow ·) ++ pivot :: back.filter (!goesLow ·))).Perm
        (front ++ pivot :: back) := by
  rw [List.perm_iff_count]
  intro x
  have hfront := (List.filter_append_perm goesLow front).count_eq x
  have hback := (List.filter_append_perm goesLow back).count_eq x
  simp only [List.count_append, List.count_cons] at hfront hback ⊢
  omega

/-- If no item comes before the pivot, those that it does not come before tie with it, and stay in
the order in which they came in front of the others. -/
theorem sorts_ties (hw : Fit → Weak before) (h : Fit → (front ++ pivot :: back).Pairwise (· < ·))
    (hleast : Fit → ∀ x ∈ front ++ pivot :: back, before x pivot = false) {highSorted : List α}
    (hhigh : Sorts Fit before (front.filter (before pivot ·) ++ back.filter (before pivot ·))
      highSorted) :
    Sorts Fit before (front ++ pivot :: back)
      (front.filter (!before pivot ·) ++ pivot :: back.filter (!before pivot ·) ++ highSorted) := by
  have hties : ∀ x ∈ front.filter (!before pivot ·) ++ pivot :: back.filter (!before pivot ·),
      Fit → before pivot x = false := by
    intro x hx hfit
    rcases mem_with hx with rfl | hx
    · exact (hw hfit).irrefl x
    · simpa using hx
  refine Sorts.append ⟨.refl _, fun hfit => ?_⟩ hhigh
    (List.perm_append_comm.trans (sides_perm _ front back pivot)) (fun hfit a ha b hb => ?_) hw
  · have hlater := (h hfit).sublist (with_sublist (!before pivot ·) front back pivot)
    refine hlater.imp_of_mem fun {a b} ha hb hab => .of_lt ?_ hab
    have hb' := hleast hfit b ((with_sublist _ front back pivot).subset hb)
    exact (hw hfit).trans (hties a ha hfit) hb'
  · exact (hw hfit).before_of_not (hties a ha hfit) (keep_of_mem_without hb)

/-- The items that come before the pivot, and behind them the others. -/
theorem sorts_sides (hw : Fit → Weak before) {lowSorted highSorted : List α}
    (hlow : Sorts Fit before (front.filter (before · pivot) ++ back.filter (before · pivot))
      lowSorted)
    (hhigh : Sorts Fit before
      (front.filter (!before · pivot) ++ pivot :: back.filter (!before · pivot)) highSorted) :
    Sorts Fit before (front ++ pivot :: back) (lowSorted ++ highSorted) := by
  refine hlow.append hhigh (sides_perm _ front back pivot) (fun hfit a ha b hb => ?_) hw
  have ha := keep_of_mem_without ha
  rcases mem_with hb with rfl | hb
  · exact ha
  · exact (hw hfit).before_of_not' ha (by simpa using hb)

omit [LinearOrder α] in
/-- No item comes before a pivot that ties with its ancestor, or before which none was found. -/
theorem not_before_pivot (hw : Weak before) {ancestor : Option α}
    (hancestor : ∀ a ∈ ancestor, ∀ x ∈ front ++ pivot :: back, before x a = false)
    (h : (ancestor.any (!before · pivot) ||
      (front.filter (before · pivot) ++ back.filter (before · pivot)).isEmpty) = true) :
    ∀ x ∈ front ++ pivot :: back, before x pivot = false := by
  intro x hx
  rcases Bool.or_eq_true_iff.1 h with hfound | hempty
  · obtain ⟨a, ha, htie⟩ := (Option.any_eq_true _ _).1 hfound
    exact hw.trans (by simpa using htie) (hancestor a ha x hx)
  · rw [List.isEmpty_iff, List.append_eq_nil_iff, List.filter_eq_nil_iff,
      List.filter_eq_nil_iff] at hempty
    rcases List.mem_append.1 hx with hx | hx
    · simpa using hempty.1 x hx
    · rcases List.mem_cons.1 hx with rfl | hx
      · exact hw.irrefl x
      · simpa using hempty.2 x hx

end

theorem sortByPivots_delivers (hw : Fit → Weak before) (limit : ℕ) (ancestor : Option α)
    (h : Fit → items.Pairwise (· < ·))
    (hancestor : Fit → ∀ a ∈ ancestor, ∀ x ∈ items, before x a = false) :
    Delivers Fit (Sorts Fit before items) (sortByPivots before limit ancestor items) := by
  induction limit generalizing ancestor items with
  | zero =>
    rw [sortByPivots]
    split
    · exact sortShort_delivers hw h
    next hmany =>
      exact sortEagerly_delivers hw (by rintro rfl; exact hmany (Nat.zero_le _)) h
  | succ limit ih =>
    rw [sortByPivots]
    split
    · exact sortShort_delivers hw h
    next hmany =>
      have hplace := pivotPlace_lt before (Nat.lt_of_not_le hmany)
      have hitems := List.take_append_drop (pivotPlace before items) items
      rw [List.drop_eq_getElem_cons hplace] at hitems
      dsimp only
      generalize items[pivotPlace before items] = pivot at hitems ⊢
      generalize items.take (pivotPlace before items) = front at hitems ⊢
      generalize items.drop (pivotPlace before items + 1) = back at hitems ⊢
      subst hitems
      split
      next hnone =>
        have hleast : Fit → ∀ x ∈ front ++ pivot :: back, before x pivot = false :=
          fun hfit => not_before_pivot (hw hfit) (hancestor hfit) hnone
        refine (ih none (fun hfit => (h hfit).sublist (without_sublist _ front back pivot))
          nofun).bind fun high hhigh => ?_
        exact .some (sorts_ties hw h hleast hhigh)
      next hsome =>
        refine (ih ancestor (fun hfit => (h hfit).sublist (without_sublist _ front back pivot))
          fun hfit a ha x hx => hancestor hfit a ha x
            ((without_sublist _ front back pivot).subset hx)).bind fun low hlow => ?_
        refine (ih (some pivot) (fun hfit => (h hfit).sublist (with_sublist _ front back pivot))
          fun hfit a ha x hx => ?_).bind fun high hhigh => .some (sorts_sides hw hlow hhigh)
        obtain rfl : pivot = a := Option.some.inj ha
        rcases mem_with hx with rfl | hx
        · exact (hw hfit).irrefl x
        · simpa using hx

/-! ### Runs that may wait -/

/-- A sorted piece of the list, or a piece as it stands. -/
def Run.Holds (Fit : Prop) (before : α → α → Bool) : Run α → List α → Prop
  | .sorted items, piece => Sorts Fit before piece items
  | .unsorted items, piece => items = piece

namespace Run

variable {run left right : Run α} {piece first second : List α} {good room : ℕ}

theorem settle_delivers (hw : Fit → Weak before) (hrun : run.Holds Fit before piece)
    (h : Fit → piece.Pairwise (· < ·)) :
    Delivers Fit (Sorts Fit before piece) (run.settle before) := by
  cases run with
  | sorted items => exact .some hrun
  | unsorted items =>
    subst hrun
    exact sortByPivots_delivers hw _ none h nofun

theorem join_delivers (hw : Fit → Weak before) (room : ℕ) (hl : left.Holds Fit before first)
    (hr : right.Holds Fit before second) (h : Fit → (first ++ second).Pairwise (· < ·)) :
    Delivers Fit (Holds Fit before · (first ++ second)) (join before room left right) := by
  have hmerged : Delivers Fit (Holds Fit before · (first ++ second))
      (join.merged before left right) := by
    have hfirst : Fit → first.Pairwise (· < ·) := fun hfit => (List.pairwise_append.1 (h hfit)).1
    have hsecond : Fit → second.Pairwise (· < ·) :=
      fun hfit => (List.pairwise_append.1 (h hfit)).2.1
    refine (settle_delivers hw hl hfirst).bind fun _ hl => ?_
    refine (settle_delivers hw hr hsecond).bind fun _ hr => ?_
    exact .some (hl.merge hw h hr)
  unfold join
  split
  next =>
    split
    next =>
      obtain rfl : _ = first := hl
      obtain rfl : _ = second := hr
      exact .some rfl
    next => exact hmerged
  next => exact hmerged

end Run

theorem goodLength_pos {n : ℕ} (h : 0 < n) : 0 < goodLength n := by
  unfold goodLength
  split
  · omega
  next hmany =>
    have hlog : 1 ≤ n.log2 := (Nat.le_log2 h.ne').2 (by omega)
    have hroot : 2 ^ 1 ≤ 2 ^ ((1 + n.log2) / 2) := Nat.pow_le_pow_right Nat.two_pos (by omega)
    exact Nat.div_pos (hroot.trans (Nat.le_add_right _ _)) Nat.two_pos

theorem lazyRun_holds (hw : Fit → Weak before) {good : ℕ} (hgood : 0 < good) (hne : items ≠ [])
    (h : Fit → items.Pairwise (· < ·)) :
    let run := lazyRun before good items
    0 < run.items.length ∧ run.Holds Fit before (items.take run.items.length) := by
  dsimp only
  unfold lazyRun
  split
  next run hrun => exact naturalRun_sorts hw h hrun
  next =>
    have hpos := List.length_pos_iff.2 hne
    have hlength : (items.take good).length = min good items.length := List.length_take
    refine ⟨by rw [Run.items, hlength]; omega, ?_⟩
    show items.take good = items.take (items.take good).length
    rw [hlength, List.take_eq_take_iff]
    omega

theorem sortLazily_delivers (hw : Fit → Weak before) (hne : items ≠ [])
    (h : Fit → items.Pairwise (· < ·)) :
    Delivers Fit (Sorts Fit before items) (sortLazily before items) := by
  unfold sortLazily
  have hgood := goodLength_pos (List.length_pos_iff.2 hne)
  refine (joinRuns_delivers (Run.Holds Fit before) (fun _ hne h => .some
    (lazyRun_holds hw hgood hne h)) (fun _ _ _ _ hl hr h => Run.join_delivers hw _ hl hr h) hne h).bind ?_
  exact fun all hall => Run.settle_delivers hw hall h

/-! ### Any list -/

theorem sortRuns_delivers (hw : Fit → Weak before) (hne : items ≠ [])
    (h : Fit → items.Pairwise (· < ·)) :
    Delivers Fit (Sorts Fit before items) (sortRuns before items) := by
  unfold sortRuns
  split
  · exact sortEagerly_delivers hw hne h
  · exact sortLazily_delivers hw hne h

end

section

variable {α β : Type} {before : α → α → Bool} {items sorted : List α}

theorem finRange_ne_nil {n : ℕ} (h : ¬ n ≤ 20) : List.finRange n ≠ [] := by
  rw [← List.length_pos_iff, List.length_finRange]
  omega

/-- What comes out holds the items. -/
theorem arrange_perm (h : arrange before items = some sorted) : sorted.Perm items := by
  unfold arrange at h
  split at h
  next =>
    cases h
    exact sort_perm before items
  next hmany =>
    obtain ⟨places, hplaces, rfl⟩ := Option.map_eq_some_iff.1 h
    have hdelivers : Delivers False (Sorts False (byPlace before items) (List.finRange items.length))
        (sortRuns (byPlace before items) (List.finRange items.length)) :=
      sortRuns_delivers nofun (finRange_ne_nil hmany) nofun
    have hperm := (hdelivers.holds places hplaces).perm.map items.get
    rwa [List.map_get_finRange] at hperm

/-- If what comes before what orders the items but for ties, many items are sorted as few are. -/
theorem arrange_eq_sort (hw : Weak before) (items : List α) :
    arrange before items = some (sort before items) := by
  unfold arrange
  split
  next => rfl
  next hmany =>
    have hplacesWeak : Weak (byPlace before items) := ⟨hw.asymm, hw.trans⟩
    have hlt := List.pairwise_lt_finRange items.length
    have hdelivers : Delivers True (Sorts True (byPlace before items) (List.finRange items.length))
        (sortRuns (byPlace before items) (List.finRange items.length)) :=
      sortRuns_delivers (fun _ => hplacesWeak) (finRange_ne_nil hmany) fun _ => hlt
    obtain ⟨places, hplaces⟩ := Option.isSome_iff_exists.1 (hdelivers.isSome trivial)
    have hsorts := hdelivers.holds places hplaces
    have heq : places = sort (byPlace before items) (List.finRange items.length) :=
      eq_sort hplacesWeak (fun _ _ hij hji => (hij.asymm hji).elim) hlt hsorts.perm
        (hsorts.inOrder trivial)
    have hmap : sort before ((List.finRange items.length).map items.get) =
        (sort (byPlace before items) (List.finRange items.length)).map items.get :=
      sort_map (fun _ _ => rfl) _
    rw [List.map_get_finRange] at hmap
    rw [hplaces, heq, hmap]
    rfl

theorem sortRuns_cast {m n : ℕ} (h : m = n) {before : Fin m → Fin m → Bool}
    {before' : Fin n → Fin n → Bool}
    (hb : ∀ i j, before' (i.cast h) (j.cast h) = before i j) :
    sortRuns before' (List.finRange n) =
      (sortRuns before (List.finRange m)).map (List.map (Fin.cast h)) := by
  subst h
  obtain rfl : before' = before := funext fun i => funext (hb i)
  simp

/-- Whether and how items are arranged does not depend on more than which come before which. -/
theorem arrange_map {before' : β → β → Bool} {f : α → β}
    (hf : ∀ a b, before' (f a) (f b) = before a b) (items : List α) :
    arrange before' (items.map f) = (arrange before items).map (List.map f) := by
  have hlength : items.length = (items.map f).length := List.length_map f |>.symm
  unfold arrange
  by_cases hfew : items.length ≤ 20
  · rw [if_pos hfew, if_pos (hlength ▸ hfew), sort_map hf]
    rfl
  · rw [if_neg hfew, if_neg (hlength ▸ hfew)]
    have hplaces : ∀ i j, byPlace before' (items.map f) (i.cast hlength) (j.cast hlength) =
        byPlace before items i j := by
      simp [byPlace, hf]
    rw [sortRuns_cast hlength hplaces, Option.map_map, Option.map_map]
    congr 1
    funext places
    simp

end

end Sorting
end NestedQuery
