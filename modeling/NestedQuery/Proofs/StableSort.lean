/-
# Stable sorting by several keys

If the keys are ordered at all, that is if the order of values is transitive
on the keys of each term, the items end up in the order of their keys, and
items with equal keys stay in the order in which they came. The order of two
rows of keys is that of the first keys that differ, and it is total and
transitive since the orders of the single keys are (`orderKeys_swap`,
`orderKeys_isLE_trans`), so many items are sorted as few are
(`Sorting.arrange_eq_sort`). Keys whose order is not transitive leave open what
comes of the sort (`sortItems_map_keys`).

The items are spoken of by their places, so that equal items can be told
apart: a sorted list is the list of the places in another order. Keys that
cannot be read make the sort fail as the first of them does, item by item and
within an item term by term.

Key definitions: `Value.Preordered`, `SortTerm.order`, `InFront`.
Key theorems: `orderKeys_eq_of_first`, `sortItems_map_keys`,
`exists_places_sortItems`, `sortItems_eq_error`, `runModifier_sort`.
-/
import Mathlib.Data.Prod.Lex
import Mathlib.Tactic.FinCases
import NestedQuery.Proofs.Lockstep
import NestedQuery.Proofs.Steady
import NestedQuery.Proofs.ValueOrder

namespace NestedQuery

/-! ### Rows of keys -/

/-- The order is transitive on these values; it is total on all values (`Value.order_swap`). -/
def Value.Preordered (values : Set Value) : Prop :=
  ∀ a ∈ values, ∀ b ∈ values, ∀ c ∈ values,
    (a.order b).isLE → (b.order c).isLE → (a.order c).isLE

namespace Value.Preordered

theorem mono {values values' : Set Value} (h : Preordered values') (hsub : values ⊆ values') :
    Preordered values :=
  fun a ha b hb c hc => h a (hsub ha) b (hsub hb) c (hsub hc)

/-- Only binary numbers stand in the way of transitivity. -/
theorem of_no_float {values : Set Value} (h : ∀ v ∈ values, ∀ x, v ≠ float x) :
    Preordered values := by
  intro a ha b hb c hc
  refine fun hab hbc => order_isLE_trans (h a ha _) (h b hb _) (h c hc _) hab hbc ?_
  rintro ⟨x, _, _, rfl, -⟩
  exact h _ ha x rfl

end Value.Preordered

/-- The order of two keys of a term. -/
def SortTerm.order (term : SortTerm) (a b : Value) : Ordering :=
  if term.direction.isAscending then a.order b else (a.order b).swap

namespace SortTerm

variable {term : SortTerm} {a b c : Value}

theorem order_swap (term : SortTerm) (a b : Value) : term.order b a = (term.order a b).swap := by
  unfold order
  rw [Value.order_swap a b]
  split <;> rfl

theorem order_eq_eq_iff : term.order a b = .eq ↔ a.order b = .eq := by
  unfold order
  split
  · exact Iff.rfl
  · exact Ordering.swap_eq_eq

theorem order_isLE_trans {values : Set Value} (h : Value.Preordered values) (ha : a ∈ values)
    (hb : b ∈ values) (hc : c ∈ values) (hab : (term.order a b).isLE)
    (hbc : (term.order b c).isLE) : (term.order a c).isLE := by
  unfold order at *
  split at hab
  next hasc =>
    rw [if_pos hasc] at hbc ⊢
    exact h a ha b hb c hc hab hbc
  next hdesc =>
    rw [if_neg hdesc, ← Value.order_swap] at hbc ⊢
    rw [← Value.order_swap] at hab
    exact h c hc b hb a ha hbc hab

/-- If the outer two of three keys in order tie, all three do. -/
theorem order_eq_of_tie {values : Set Value} (h : Value.Preordered values) (ha : a ∈ values)
    (hb : b ∈ values) (hc : c ∈ values) (hab : (term.order a b).isLE)
    (hbc : (term.order b c).isLE) (hac : term.order a c = .eq) :
    term.order a b = .eq ∧ term.order b c = .eq := by
  have hca : (term.order c a).isLE := by
    rw [order_swap, hac]
    rfl
  have hba : (term.order b a).isLE := order_isLE_trans h hb hc ha hbc hca
  have hcb : (term.order c b).isLE := order_isLE_trans h hc ha hb hca hab
  rw [order_swap] at hba hcb
  exact ⟨Ordering.eq_eq_of_isLE_of_isLE_swap hab hba, Ordering.eq_eq_of_isLE_of_isLE_swap hbc hcb⟩

end SortTerm

section

variable {terms : List SortTerm}

/-- The first keys decide, unless they tie. -/
theorem orderKeys_cons (term : SortTerm) (terms : List SortTerm) (a b : Value)
    (as bs : List Value) :
    orderKeys (term :: terms) (a :: as) (b :: bs) =
      (term.order a b).then (orderKeys terms as bs) := by
  rw [orderKeys, SortTerm.order]
  cases a.order b <;> cases term.direction.isAscending <;> rfl

theorem orderKeys_ofFn_cons (term : SortTerm) (terms : List SortTerm)
    (a b : Fin (term :: terms).length → Value) :
    orderKeys (term :: terms) (List.ofFn a) (List.ofFn b) =
      (term.order (a 0) (b 0)).then
        (orderKeys terms (List.ofFn fun k => a k.succ) (List.ofFn fun k => b k.succ)) := by
  have hsplit : ∀ f : Fin (term :: terms).length → Value,
      List.ofFn f = f 0 :: List.ofFn fun k => f k.succ := fun f => List.ofFn_succ
  rw [hsplit a, hsplit b, orderKeys_cons]

theorem orderKeys_swap (a b : Fin terms.length → Value) :
    orderKeys terms (List.ofFn b) (List.ofFn a) =
      (orderKeys terms (List.ofFn a) (List.ofFn b)).swap := by
  induction terms with
  | nil => rfl
  | cons term terms ih =>
    rw [orderKeys_ofFn_cons, orderKeys_ofFn_cons, term.order_swap, ih, Ordering.swap_then]

/-- Rows of keys are transitive if the keys are, term by term. -/
theorem orderKeys_isLE_trans {values : Fin terms.length → Set Value}
    (h : ∀ k, Value.Preordered (values k)) {a b c : Fin terms.length → Value}
    (ha : ∀ k, a k ∈ values k) (hb : ∀ k, b k ∈ values k) (hc : ∀ k, c k ∈ values k)
    (hab : (orderKeys terms (List.ofFn a) (List.ofFn b)).isLE)
    (hbc : (orderKeys terms (List.ofFn b) (List.ofFn c)).isLE) :
    (orderKeys terms (List.ofFn a) (List.ofFn c)).isLE := by
  induction terms with
  | nil => rfl
  | cons term terms ih =>
    have hlater : ∀ k : Fin terms.length, Value.Preordered (values k.succ) := fun k => h k.succ
    have hrest := ih hlater (fun k => ha k.succ) (fun k => hb k.succ) fun k => hc k.succ
    rw [orderKeys_ofFn_cons, Ordering.isLE_then_iff_and] at hab hbc ⊢
    have hle := SortTerm.order_isLE_trans (h 0) (ha 0) (hb 0) (hc 0) hab.1 hbc.1
    refine ⟨hle, ?_⟩
    by_cases hlt : term.order (a 0) (c 0) = .lt
    · exact .inl hlt
    · have htie : term.order (a 0) (c 0) = .eq :=
        (Ordering.isLE_iff_eq_lt_or_eq_eq.1 hle).resolve_left hlt
      obtain ⟨htie', htie''⟩ :=
        SortTerm.order_eq_of_tie (h 0) (ha 0) (hb 0) (hc 0) hab.1 hbc.1 htie
      have hab' := hab.2.resolve_left (by simp [htie'])
      have hbc' := hbc.2.resolve_left (by simp [htie''])
      exact .inr (hrest hab' hbc')

/-- Rows tie if all keys do. -/
theorem orderKeys_eq_eq_iff {a b : Fin terms.length → Value} :
    orderKeys terms (List.ofFn a) (List.ofFn b) = .eq ↔ ∀ k, (a k).order (b k) = .eq := by
  induction terms with
  | nil => exact iff_of_true rfl fun k => k.elim0
  | cons term terms ih =>
    rw [orderKeys_ofFn_cons, Ordering.then_eq_eq, SortTerm.order_eq_eq_iff, ih]
    refine ⟨fun h k => ?_, fun h => ⟨h 0, fun k => h k.succ⟩⟩
    cases k using Fin.cases with
    | zero => exact h.1
    | succ k => exact h.2 k

/-- The first keys that differ decide. -/
theorem orderKeys_eq_of_first {a b : Fin terms.length → Value} {k : Fin terms.length}
    (hbefore : ∀ l < k, (a l).order (b l) = .eq) (hk : (a k).order (b k) ≠ .eq) :
    orderKeys terms (List.ofFn a) (List.ofFn b) = terms[k].order (a k) (b k) := by
  induction terms with
  | nil => exact k.elim0
  | cons term terms ih =>
    rw [orderKeys_ofFn_cons]
    cases k using Fin.cases with
    | zero =>
      have hne : term.order (a 0) (b 0) ≠ .eq := fun h => hk (SortTerm.order_eq_eq_iff.1 h)
      show _ = term.order (a 0) (b 0)
      cases ho : term.order (a 0) (b 0) with
      | eq => exact absurd ho hne
      | _ => rfl
    | succ k =>
      rw [SortTerm.order_eq_eq_iff.2 (hbefore 0 k.succ_pos), Ordering.eq_then]
      exact ih (fun l hl => hbefore l.succ (Fin.succ_lt_succ_iff.2 hl)) hk

end

/-! ### Reading the keys -/

section

variable {ε β γ : Type} {f : β → Except ε γ} {xs : List β}

/-- Reading succeeds if it does for each item. -/
theorem mapM_eq_ok {ys : Fin xs.length → γ} (h : ∀ i, f xs[i] = .ok (ys i)) :
    xs.mapM f = .ok (List.ofFn ys) := by
  induction xs with
  | nil => rfl
  | cons x xs ih =>
    have hx : f x = .ok (ys 0) := h 0
    have hxs : xs.mapM f = .ok (List.ofFn fun i => ys i.succ) := ih fun i => h i.succ
    rw [List.mapM_cons, hx, hxs]
    exact congrArg Except.ok List.ofFn_succ.symm

/-- Reading fails as it does for the first item for which it fails. -/
theorem mapM_eq_error {e : ε} {i : Fin xs.length} (hbefore : ∀ j < i, ∃ y, f xs[j] = .ok y)
    (hi : f xs[i] = .error e) : xs.mapM f = .error e := by
  induction xs with
  | nil => exact i.elim0
  | cons x xs ih =>
    rw [List.mapM_cons]
    cases i using Fin.cases with
    | zero =>
      have hx : f x = .error e := hi
      rw [hx]
      rfl
    | succ i =>
      obtain ⟨y, hx⟩ : ∃ y, f x = .ok y := hbefore 0 i.succ_pos
      have hxs : xs.mapM f = .error e :=
        ih (fun j hj => hbefore j.succ (Fin.succ_lt_succ_iff.2 hj)) hi
      rw [hx, hxs]
      rfl

end

section

variable (accessor : Accessor) {terms : List SortTerm} {items : List Value}

theorem sortKeys_eq_mapM (item : Value) (terms : List SortTerm) :
    sortKeys accessor item terms =
      terms.mapM fun term => accessor.getValue item term.property := by
  induction terms with
  | nil => rfl
  | cons term terms ih =>
    rw [sortKeys, List.mapM_cons, ih]
    cases accessor.getValue item term.property with
    | error e => rfl
    | ok key => cases terms.mapM fun term => accessor.getValue item term.property <;> rfl

theorem keyed_eq_mapM (terms : List SortTerm) (items : List Value) :
    keyed accessor terms items =
      items.mapM fun item => (sortKeys accessor item terms).map fun keys => (keys, item) := by
  induction items with
  | nil => rfl
  | cons item items ih =>
    rw [keyed, List.mapM_cons, ih]
    cases sortKeys accessor item terms with
    | error e => rfl
    | ok keys =>
      show Except.map _ (items.mapM _) = _
      cases items.mapM fun item => (sortKeys accessor item terms).map fun keys => (keys, item) <;>
        rfl

/-! ### Items by their keys -/

/-- An order that orders the items but for ties does not contradict itself. -/
theorem consistent_arrange {α : Type} {before : α → α → Bool} (hw : Sorting.Weak before)
    (objects : List α) :
    consistent (Sorting.arrange before objects) = .ok (Sorting.sort before objects) := by
  rw [Sorting.arrange_eq_sort hw]
  rfl

/-- The items of some objects are arranged as the objects are by the keys of their items. -/
theorem sortItems_map_keys {α : Type} {objects : List α} {item : α → Value} {row : α → List Value}
    (hrow : ∀ object ∈ objects, sortKeys accessor (item object) terms = .ok (row object)) :
    sortItems accessor terms (objects.map item) =
      (consistent (Sorting.arrange (fun a b => orderKeys terms (row a) (row b) == .lt)
        objects)).map (List.map item) := by
  let pair (object : α) : List Value × Value := (row object, item object)
  have hkeyed : keyed accessor terms (objects.map item) = .ok (objects.map pair) := by
    induction objects with
    | nil => rfl
    | cons object objects ih =>
      obtain ⟨hobject, hobjects⟩ := List.forall_mem_cons.1 hrow
      rw [List.map_cons, keyed, hobject, ih hobjects]
      rfl
  have harranged : Sorting.arrange (fun a b => orderKeys terms a.1 b.1 == .lt)
      (objects.map pair) =
        (Sorting.arrange (fun a b => orderKeys terms (row a) (row b) == .lt) objects).map
          (List.map pair) :=
    Sorting.arrange_map (fun _ _ => rfl) objects
  rw [sortItems, hkeyed]
  show Except.map _ (consistent _) = _
  rw [harranged]
  cases Sorting.arrange (fun a b => orderKeys terms (row a) (row b) == .lt) objects with
  | none => rfl
  | some arrangement => exact congrArg Except.ok List.map_map

/-- Whether item `i` comes before item `j` by its keys. -/
def comesBefore (terms : List SortTerm) {n : ℕ} (key : Fin n → Fin terms.length → Value)
    (i j : Fin n) : Bool :=
  orderKeys terms (List.ofFn (key i)) (List.ofFn (key j)) == .lt

/-- Item `i` stands in front of item `j`: the first keys that differ are in the order of their
term, and if no keys differ, item `i` was there first. -/
structure InFront (terms : List SortTerm) {n : ℕ} (key : Fin n → Fin terms.length → Value)
    (i j : Fin n) : Prop where
  decided : ∀ k, (∀ l < k, (key i l).order (key j l) = .eq) → (key i k).order (key j k) ≠ .eq →
    (key i k).order (key j k) = if terms[k].direction = .descending then .gt else .lt
  stable : (∀ k, (key i k).order (key j k) = .eq) → i < j

variable {key : Fin items.length → Fin terms.length → Value}

theorem comesBefore_eq_false_iff {i j : Fin items.length} :
    comesBefore terms key j i = false ↔
      (orderKeys terms (List.ofFn (key i)) (List.ofFn (key j))).isLE := by
  rw [comesBefore, orderKeys_swap (key i) (key j)]
  cases orderKeys terms (List.ofFn (key i)) (List.ofFn (key j)) <;> decide

theorem weak_comesBefore (h : ∀ k, Value.Preordered (Set.range fun i => key i k)) :
    Sorting.Weak (comesBefore terms key) where
  asymm {i j} hij := by
    rw [comesBefore_eq_false_iff, beq_iff_eq.1 hij]
    rfl
  trans {i j l} hij hjl := by
    rw [comesBefore_eq_false_iff] at hij hjl ⊢
    exact orderKeys_isLE_trans h (fun k => ⟨i, rfl⟩) (fun k => ⟨j, rfl⟩) (fun k => ⟨l, rfl⟩) hij hjl

theorem inFront_of_inOrder {i j : Fin items.length}
    (h : Sorting.InOrder (comesBefore terms key) (· < ·) i j) : InFront terms key i j where
  decided k hbefore hk := by
    have hfirst := orderKeys_eq_of_first hbefore hk
    have hle := comesBefore_eq_false_iff.1 h.1
    rw [hfirst, SortTerm.order] at hle
    cases hd : terms[k].direction <;> cases ho : (key i k).order (key j k) <;>
      simp_all [SortDirection.isAscending]
  stable htie := h.2 (by
    rw [comesBefore, orderKeys_eq_eq_iff.2 htie]
    rfl)

/-- Items that are given by their places are arranged as the places are. -/
theorem sortItems_places
    (hread : ∀ i k, accessor.getValue items[i] terms[k].property = .ok (key i k))
    (places : List (Fin items.length)) :
    sortItems accessor terms (places.map fun i => items[i]) =
      (consistent (Sorting.arrange (comesBefore terms key) places)).map
        (List.map fun i => items[i]) := by
  refine sortItems_map_keys accessor fun i _ => ?_
  rw [sortKeys_eq_mapM, mapM_eq_ok (hread i)]

/-- Where all keys can be read, the items are arranged as their places are. -/
theorem sortItems_eq_places
    (hread : ∀ i k, accessor.getValue items[i] terms[k].property = .ok (key i k)) :
    sortItems accessor terms items =
      (consistent (Sorting.arrange (comesBefore terms key) (List.finRange items.length))).map
        (List.map fun i => items[i]) := by
  have hitems : (List.finRange items.length).map (fun i => items[i]) = items :=
    List.map_getElem_finRange items
  have hsorted := sortItems_places accessor hread (List.finRange items.length)
  rwa [hitems] at hsorted

/-- Sorting puts the items in the order of their keys, and keeps that of items with equal keys. -/
theorem exists_places_sortItems
    (hread : ∀ i k, accessor.getValue items[i] terms[k].property = .ok (key i k))
    (h : ∀ k, Value.Preordered (Set.range fun i => key i k)) :
    ∃ places : List (Fin items.length), places.Perm (List.finRange items.length) ∧
      sortItems accessor terms items = .ok (places.map fun i => items[i]) ∧
      places.Pairwise (InFront terms key) := by
  have hweak : Sorting.Weak (comesBefore terms key) := weak_comesBefore h
  refine ⟨Sorting.sort (comesBefore terms key) (List.finRange items.length),
    Sorting.sort_perm _ _, ?_, ?_⟩
  · rw [sortItems_eq_places accessor hread, consistent_arrange hweak]
    rfl
  · exact (Sorting.pairwise_sort hweak (List.pairwise_lt_finRange _)).imp inFront_of_inOrder

/-- Items with the same keys stay as they are. -/
theorem sortItems_of_same_keys {value : Fin terms.length → Value}
    (hread : ∀ (i : Fin items.length) k,
      accessor.getValue items[i] terms[k].property = .ok (value k)) :
    sortItems accessor terms items = .ok items := by
  have hordered : ∀ k : Fin terms.length,
      Value.Preordered (Set.range fun _ : Fin items.length => value k) := by
    rintro k _ ⟨i, rfl⟩ _ ⟨j, rfl⟩ _ ⟨l, rfl⟩ hij _
    exact hij
  obtain ⟨places, hperm, hsorted, hpairs⟩ := exists_places_sortItems accessor hread hordered
  have hascending : places.Pairwise (· ≤ ·) :=
    hpairs.imp fun hij => (hij.stable fun k => (value k).order_self).le
  have hplaces : places = List.finRange items.length :=
    hperm.eq_of_pairwise' hascending ((List.pairwise_lt_finRange _).imp le_of_lt)
  rw [hsorted, hplaces]
  exact congrArg Except.ok (List.map_getElem_finRange items)

/-- Sorting fails with the first key that cannot be read, item by item and term by term. -/
theorem sortItems_eq_error {i : Fin items.length} {k : Fin terms.length} {e : EvalError}
    (hitems : ∀ j < i, ∀ l : Fin terms.length, ∃ v,
      accessor.getValue items[j] terms[l].property = .ok v)
    (hterms : ∀ l < k, ∃ v, accessor.getValue items[i] terms[l].property = .ok v)
    (he : accessor.getValue items[i] terms[k].property = .error e) :
    sortItems accessor terms items = .error e := by
  have hkeyed : keyed accessor terms items = .error e := by
    rw [keyed_eq_mapM]
    refine mapM_eq_error (i := i) (fun j hj => ?_) ?_
    · choose v hv using hitems j hj
      rw [sortKeys_eq_mapM, mapM_eq_ok hv]
      exact ⟨_, rfl⟩
    · rw [sortKeys_eq_mapM, mapM_eq_error hterms he]
      rfl
  rw [sortItems, hkeyed]
  rfl

end

/-! ### The modifier -/

/-- What a sort makes of a sequence. -/
theorem result_runModifier_sort (accessor : Accessor) (aliasName : String) (terms : List SortTerm)
    {v : Value} {items : List Value} (hv : v.sequence "sort" = .ok items) (g : Generator) :
    (runModifier accessor aliasName (.sort terms) v g).result =
      (sortItems accessor terms items).map .array := by
  have hsort : runModifier accessor aliasName (.sort terms) v = (do
      Eval.reportAll (customDirections terms)
      let sorted ← Eval.ofExcept (sortItems accessor terms items)
      Eval.report (.modifierApplied aliasName "sort")
      pure (.array sorted)) := by
    simp only [runModifier, hv]
    rfl
  rw [hsort, (Eval.Steady.reportAll _).result_bind]
  show Outcome.result ((Eval.ofExcept _ >>= _) g) = _
  rw [(Eval.Steady.ofExcept _).result_bind]
  cases sortItems accessor terms items <;> rfl

/-- **Sort is the stable sort by several keys.** Of an array, or of the values of an object, it
makes the array of the same items if all keys can be read and their order is transitive term by
term, as it is if no key is a binary number. Any two of the items stand in the order of the first
keys that differ, which a descending term and no other reverses, or in the order in which they came
if no keys differ. If some key cannot be read, it fails as the first of them does, item by item and
within an item term by term. -/
theorem runModifier_sort (accessor : Accessor) (aliasName : String) (terms : List SortTerm)
    {v : Value} {items : List Value}
    (hv : v = .array items ∨ ∃ entries, v = .object entries ∧ items = entries.map Prod.snd)
    (g : Generator) :
    (∀ key : Fin items.length → Fin terms.length → Value,
      (∀ i k, accessor.getValue items[i] terms[k].property = .ok (key i k)) →
      ((∀ i k x, key i k ≠ .float x) → ∀ k, Value.Preordered (Set.range fun i => key i k)) ∧
      ((∀ k, Value.Preordered (Set.range fun i => key i k)) →
        ∃ places : List (Fin items.length), places.Perm (List.finRange items.length) ∧
          (runModifier accessor aliasName (.sort terms) v g).result =
            .ok (.array (places.map fun i => items[i])) ∧
          places.Pairwise (InFront terms key))) ∧
    ((∃ i : Fin items.length, ∃ k : Fin terms.length, ∃ e,
        accessor.getValue items[i] terms[k].property = .error e) →
      ∃ i : Fin items.length, ∃ k : Fin terms.length, ∃ e,
        (∀ j l, toLex (j, l) < toLex (i, k) →
          ∃ w, accessor.getValue items[j] terms[l].property = .ok w) ∧
        accessor.getValue items[i] terms[k].property = .error e ∧
        (runModifier accessor aliasName (.sort terms) v g).result = .error e) := by
  have hsequence : v.sequence "sort" = .ok items := by
    obtain rfl | ⟨entries, rfl, rfl⟩ := hv <;> rfl
  rw [result_runModifier_sort accessor aliasName terms hsequence]
  constructor
  · refine fun key hread => ⟨fun hfloat k => .of_no_float ?_, fun hordered => ?_⟩
    · rintro _ ⟨i, rfl⟩ x
      exact hfloat i k x
    · obtain ⟨places, hperm, hsorted, hpairs⟩ := exists_places_sortItems accessor hread hordered
      refine ⟨places, hperm, ?_, hpairs⟩
      rw [hsorted]
      rfl
  · rintro ⟨i, k, e, he⟩
    let fails (p : Fin items.length ×ₗ Fin terms.length) : Prop :=
      ∃ e, accessor.getValue items[(ofLex p).1] terms[(ofLex p).2].property = .error e
    obtain ⟨p, ⟨e', he'⟩, hfirst⟩ :=
      wellFounded_lt.has_min {p : Fin items.length ×ₗ Fin terms.length | fails p}
        ⟨toLex (i, k), e, he⟩
    have hread : ∀ j l, toLex (j, l) < p →
        ∃ w, accessor.getValue items[j] terms[l].property = .ok w := by
      intro j l hlt
      cases hw : accessor.getValue items[j] terms[l].property with
      | ok w => exact ⟨w, rfl⟩
      | error e => exact absurd hlt (hfirst (toLex (j, l)) ⟨e, hw⟩)
    refine ⟨(ofLex p).1, (ofLex p).2, e', hread, he', ?_⟩
    rw [sortItems_eq_error accessor (fun j hj l => hread j l (.left _ _ hj))
      (fun l hl => hread _ l (.right _ hl)) he']
    rfl

/-- The first and the third row tie and keep their order behind the second one, which a descending
term puts in front. A row without the key makes a strict sort fail. -/
theorem runModifier_sort_tie :
    let row (n : Int64) (label : String) : Value :=
      .object [("n", .integer n), ("label", .string label)]
    let items := [row 1 "first", row 2 "second", row 1 "third"]
    let terms : List SortTerm := [⟨"n", .descending⟩]
    let key (i : Fin items.length) (_ : Fin terms.length) : Value := .integer ([1, 2, 1].get i)
    let strict : Accessor := { strict := true }
    (∀ i k, Accessor.getValue {} items[i] terms[k].property = .ok (key i k)) ∧
      (∀ k, Value.Preordered (Set.range fun i => key i k)) ∧
      (∃ places : List (Fin items.length), places.Perm (List.finRange items.length) ∧
        (runModifier {} "rows" (.sort terms) (.array items) ⟨0⟩).result =
          .ok (.array (places.map fun i => items[i])) ∧
        places.Pairwise (InFront terms key)) ∧
      ∃ e, strict.getValue (.object []) "n" = .error e ∧
        (runModifier strict "rows" (.sort terms) (.array [.object []]) ⟨0⟩).result = .error e := by
  intro row items terms key strict
  have hread : ∀ i k, Accessor.getValue {} items[i] terms[k].property = .ok (key i k) := by
    intro i k
    fin_cases k
    fin_cases i <;> cbv
  obtain ⟨hfloat, hsort⟩ := (runModifier_sort {} "rows" terms (.inl rfl) ⟨0⟩).1 key hread
  have hordered := hfloat (by intro i k x; simp [key])
  refine ⟨hread, hordered, hsort hordered, ?_⟩
  obtain ⟨i, k, e, -, he, hresult⟩ :=
    (runModifier_sort strict "rows" terms (.inl (rfl : Value.array [.object []] = _)) ⟨0⟩).2
      ⟨0, 0, _, by cbv⟩
  rw [Fin.fin_one_eq_zero i, Fin.fin_one_eq_zero k] at he
  exact ⟨e, he, hresult⟩

example :
    let row (n : Int64) (label : String) : Value :=
      .object [("n", .integer n), ("label", .string label)]
    (runModifier {} "rows" (.sort [⟨"n", .descending⟩])
      (.array [row 1 "first", row 2 "second", row 1 "third"]) ⟨0⟩).result =
        .ok (.array [row 2 "second", row 1 "first", row 1 "third"]) := by
  cbv

end NestedQuery
