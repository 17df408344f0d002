/-
# Sorting twice

A sort behind another one is the single sort that has the terms of the second
one in front of those of the first, as in a radix sort: the first sort is the
order that the second one leaves to items that tie. Sorting twice by the same
terms is sorting once.

Both sides put the same items in the same order, ties and all: a list of
items that stand in order is the sorted list, and what the second sort leaves
is in the order of both (`Sorting.sort_sort`). One side fails if the other
does, as both read the same keys, but not always with the same error: the
first sort fails for its own terms first, and the single sort for those of the
second one. Sorts that can read their keys fail only where the order of the
keys contradicts itself (`Readable.eq_contradictoryOrder`).

Key definitions: `Sorting.lex`, `Ordered`, `Readable`.
Key theorems: `Sorting.sort_sort`, `orderKeys_append`,
`exists_sortItems_sortItems`, `runModifiers_sort_sort`.
-/
import NestedQuery.Proofs.StableSort

namespace NestedQuery

/-! ### Two orders -/

namespace Sorting

variable {α : Type} {before major minor : α → α → Bool} {earlier : α → α → Prop} {items : List α}

/-- What comes before by the first order, or ties there and comes before by the second one. -/
def lex (major minor : α → α → Bool) (a b : α) : Bool :=
  major a b || (!major b a && minor a b)

theorem lex_eq_false_iff {a b : α} :
    lex major minor a b = false ↔
      major a b = false ∧ (major b a = false → minor a b = false) := by
  unfold lex
  cases major a b <;> cases major b a <;> simp

theorem Weak.lex (hmajor : Weak major) (hminor : Weak minor) : Weak (lex major minor) where
  asymm {a b} hab := by
    rw [lex_eq_false_iff]
    cases hmaj : major a b with
    | true => exact ⟨hmajor.asymm hmaj, nofun⟩
    | false =>
      simp only [Sorting.lex, hmaj, Bool.false_or, Bool.and_eq_true, Bool.not_eq_true'] at hab
      exact ⟨hab.1, fun _ => hminor.asymm hab.2⟩
  trans {a b c} hab hbc := by
    rw [lex_eq_false_iff] at hab hbc ⊢
    refine ⟨hmajor.trans hab.1 hbc.1, fun hac => ?_⟩
    -- the outer two tie, so all three do
    have htie : major a b = false := hmajor.trans hbc.1 hac
    have htie' : major b c = false := hmajor.trans hac hab.1
    exact hminor.trans (hab.2 htie) (hbc.2 htie')

/-- Two items are in order by both orders if they are by the first one, and the second one has put
those in order that tie. -/
theorem InOrder.lex {a b : α} (h : InOrder major (InOrder minor earlier) a b) :
    InOrder (lex major minor) earlier a b := by
  obtain ⟨hba, htie⟩ := h
  constructor
  · exact lex_eq_false_iff.2 ⟨hba, fun hab => (htie hab).1⟩
  · intro hab
    obtain ⟨hab, hminor⟩ := lex_eq_false_iff.1 hab
    exact (htie hab).2 (hminor hba)

/-- Sorting by one order and then by another is sorting by both at once. -/
theorem sort_sort (hmajor : Weak major) (hminor : Weak minor)
    (hasymm : ∀ a b, earlier a b → earlier b a → a = b) (hitems : items.Pairwise earlier) :
    sort major (sort minor items) = sort (lex major minor) items := by
  have hperm : (sort major (sort minor items)).Perm items :=
    (sort_perm _ _).trans (sort_perm _ _)
  have hsorted := pairwise_sort hmajor (pairwise_sort hminor hitems)
  exact eq_sort (hmajor.lex hminor) hasymm hitems hperm (hsorted.imp InOrder.lex)

/-- Twice the same order is that order. -/
theorem lex_self (before : α → α → Bool) : lex before before = before := by
  funext a b
  unfold lex
  cases before a b <;> cases before b a <;> rfl

end Sorting

/-! ### Rows of keys one behind the other -/

/-- The keys of the terms in front decide, unless they all tie. -/
theorem orderKeys_append {major : List SortTerm} (minor : List SortTerm)
    (a b : Fin major.length → Value) (as bs : List Value) :
    orderKeys (major ++ minor) (List.ofFn a ++ as) (List.ofFn b ++ bs) =
      (orderKeys major (List.ofFn a) (List.ofFn b)).then (orderKeys minor as bs) := by
  induction major with
  | nil => rfl
  | cons term major ih =>
    have hsplit : ∀ f : Fin (term :: major).length → Value,
        List.ofFn f = f 0 :: List.ofFn fun k => f k.succ := fun f => List.ofFn_succ
    rw [hsplit a, hsplit b]
    simp only [List.cons_append, orderKeys_cons]
    rw [ih (fun k => a k.succ) fun k => b k.succ, Ordering.then_assoc]

section

variable {accessor : Accessor} {terms major minor : List SortTerm} {items : List Value}

theorem sortKeys_append {item : Value} {as bs : List Value}
    (ha : sortKeys accessor item major = .ok as) (hb : sortKeys accessor item minor = .ok bs) :
    sortKeys accessor item (major ++ minor) = .ok (as ++ bs) := by
  rw [sortKeys_eq_mapM] at ha hb ⊢
  rw [List.mapM_append, ha, hb]
  rfl

/-- The order of two items by the terms of both sorts. -/
theorem orderKeys_append_eq_lex {n : ℕ} (keyA : Fin n → Fin major.length → Value)
    (keyB : Fin n → Fin minor.length → Value) (i j : Fin n) :
    (orderKeys (major ++ minor) (List.ofFn (keyA i) ++ List.ofFn (keyB i))
        (List.ofFn (keyA j) ++ List.ofFn (keyB j)) == .lt) =
      Sorting.lex (comesBefore major keyA) (comesBefore minor keyB) i j := by
  rw [orderKeys_append, Sorting.lex, comesBefore, comesBefore, comesBefore,
    orderKeys_swap (keyA i) (keyA j)]
  cases orderKeys major (List.ofFn (keyA i)) (List.ofFn (keyA j)) <;>
    cases orderKeys minor (List.ofFn (keyB i)) (List.ofFn (keyB j)) <;> rfl

/-! ### Items whose keys are ordered -/

/-- Each of the terms has a key in each of the items. -/
def Readable (accessor : Accessor) (terms : List SortTerm) (items : List Value) : Prop :=
  ∀ item ∈ items, ∀ term ∈ terms, ∃ key, accessor.getValue item term.property = .ok key

/-- The order is transitive on the keys of each term; it is total anyway. -/
def Ordered (accessor : Accessor) (terms : List SortTerm) (items : List Value) : Prop :=
  ∀ term ∈ terms,
    Value.Preordered {key | ∃ item ∈ items, accessor.getValue item term.property = .ok key}

/-- Keys that are no binary numbers are ordered. -/
theorem ordered_of_no_float
    (h : ∀ item ∈ items, ∀ term ∈ terms, ∀ x,
      accessor.getValue item term.property ≠ .ok (.float x)) :
    Ordered accessor terms items := by
  refine fun term hterm => .of_no_float ?_
  rintro key ⟨item, hitem, hkey⟩ x rfl
  exact h item hitem term hterm x hkey

theorem readable_append_iff :
    Readable accessor (major ++ minor) items ↔
      Readable accessor major items ∧ Readable accessor minor items := by
  simp only [Readable, List.forall_mem_append]
  exact forall₂_and

theorem Readable.perm {sorted : List Value} (hperm : sorted.Perm items) :
    Readable accessor terms sorted ↔ Readable accessor terms items :=
  forall_congr' fun _ => imp_congr_left hperm.mem_iff

/-- The keys by item and term. -/
theorem Readable.exists_key (h : Readable accessor terms items) :
    ∃ key : Fin items.length → Fin terms.length → Value,
      ∀ i k, accessor.getValue (items.get i) (terms.get k).property = .ok (key i k) := by
  have hread : ∀ (i : Fin items.length) (k : Fin terms.length),
      ∃ key, accessor.getValue (items.get i) (terms.get k).property = .ok key :=
    fun i k => h _ (items.get_mem i) _ (terms.get_mem k)
  choose key hkey using hread
  exact ⟨key, hkey⟩

/-- The order of the items by their keys. -/
theorem Ordered.weak (h : Ordered accessor terms items)
    {key : Fin items.length → Fin terms.length → Value}
    (hread : ∀ i k, accessor.getValue (items.get i) (terms.get k).property = .ok (key i k)) :
    Sorting.Weak (comesBefore terms key) := by
  refine weak_comesBefore fun k => (h (terms.get k) (terms.get_mem k)).mono ?_
  rintro _ ⟨i, rfl⟩
  exact ⟨items.get i, items.get_mem i, hread i k⟩

/-- Reading succeeds if it does for each item, and only then. -/
theorem exists_mapM_eq_ok_iff {ε β γ : Type} {f : β → Except ε γ} {xs : List β} :
    (∃ ys, xs.mapM f = .ok ys) ↔ ∀ x ∈ xs, ∃ y, f x = .ok y := by
  constructor
  · rintro ⟨ys, hys⟩ x hx
    induction xs generalizing ys with
    | nil => cases hx
    | cons z xs ih =>
      rw [List.mapM_cons] at hys
      cases hz : f z with
      | error e =>
        rw [hz] at hys
        cases hys
      | ok w =>
        rw [hz] at hys
        cases hxs : xs.mapM f with
        | error e =>
          rw [hxs] at hys
          cases hys
        | ok ws =>
          rcases List.mem_cons.1 hx with rfl | hx
          · exact ⟨w, hz⟩
          · exact ih ws hxs hx
  · intro h
    have hread : ∀ i, ∃ y, f (xs.get i) = .ok y := fun i => h _ (xs.get_mem i)
    choose ys hys using hread
    exact ⟨_, mapM_eq_ok hys⟩

/-- The keys are those that can be read. -/
theorem exists_keyed_iff :
    (∃ pairs, keyed accessor terms items = .ok pairs) ↔ Readable accessor terms items := by
  have hkeys : ∀ item, (∃ pair, (sortKeys accessor item terms).map (fun keys => (keys, item)) =
      .ok pair) ↔ ∀ term ∈ terms, ∃ key, accessor.getValue item term.property = .ok key := by
    intro item
    rw [exists_map_eq_ok_iff, sortKeys_eq_mapM, exists_mapM_eq_ok_iff]
  rw [keyed_eq_mapM, exists_mapM_eq_ok_iff]
  exact forall₂_congr fun item _ => hkeys item

/-- A sort that succeeds has read all keys. -/
theorem readable_of_sortItems {sorted : List Value}
    (h : sortItems accessor terms items = .ok sorted) : Readable accessor terms items := by
  rw [sortItems] at h
  cases hkeyed : keyed accessor terms items with
  | error e =>
    rw [hkeyed] at h
    cases h
  | ok pairs => exact exists_keyed_iff.1 ⟨pairs, hkeyed⟩

theorem exists_sortItems_eq_error (h : ¬ Readable accessor terms items) :
    ∃ e, sortItems accessor terms items = .error e := by
  cases hsorted : sortItems accessor terms items with
  | error e => exact ⟨e, rfl⟩
  | ok sorted => exact absurd (readable_of_sortItems hsorted) h

/-- A sort that has read all keys fails only where their order contradicts itself. -/
theorem Readable.eq_contradictoryOrder (h : Readable accessor terms items) {e : EvalError}
    (he : sortItems accessor terms items = .error e) : e = .contradictoryOrder := by
  obtain ⟨key, hread⟩ := h.exists_key
  have hplaces := (sortItems_eq_places accessor hread).symm.trans he
  cases harranged : Sorting.arrange (comesBefore terms key) (List.finRange items.length) with
  | none =>
    rw [harranged] at hplaces
    exact (Except.error.inj hplaces).symm
  | some places =>
    rw [harranged] at hplaces
    cases hplaces

/-- A sort succeeds if all keys can be read and their order does not contradict itself. -/
theorem Readable.exists_sortItems (hread : Readable accessor terms items)
    (h : Ordered accessor terms items) :
    ∃ sorted, sortItems accessor terms items = .ok sorted := by
  obtain ⟨key, hkey⟩ := hread.exists_key
  rw [sortItems_eq_places accessor hkey, consistent_arrange (h.weak hkey)]
  exact ⟨_, rfl⟩

theorem sortItems_perm {sorted : List Value} (h : sortItems accessor terms items = .ok sorted) :
    sorted.Perm items := by
  obtain ⟨key, hread⟩ := (readable_of_sortItems h).exists_key
  have hplaces := (sortItems_eq_places accessor hread).symm.trans h
  cases harranged : Sorting.arrange (comesBefore terms key) (List.finRange items.length) with
  | none =>
    rw [harranged] at hplaces
    cases hplaces
  | some places =>
    rw [harranged] at hplaces
    rw [← Except.ok.inj hplaces]
    exact ((Sorting.arrange_perm harranged).map _).trans
      (.of_eq (List.map_getElem_finRange items))

/-! ### One sort behind the other -/

/-- Two sorts in a row are the single sort by the terms of both, the later ones first. -/
theorem exists_sortItems_sortItems (hread : Readable accessor (major ++ minor) items)
    (h : Ordered accessor (major ++ minor) items) :
    ∃ first second, sortItems accessor minor items = .ok first ∧
      sortItems accessor major first = .ok second ∧
      sortItems accessor (major ++ minor) items = .ok second := by
  obtain ⟨hmajor, hminor⟩ := List.forall_mem_append.1 h
  obtain ⟨hreadA, hreadB⟩ := readable_append_iff.1 hread
  obtain ⟨keyA, hkeyA⟩ := hreadA.exists_key
  obtain ⟨keyB, hkeyB⟩ := hreadB.exists_key
  let places := List.finRange items.length
  have hrow : ∀ i ∈ places, sortKeys accessor (items.get i) (major ++ minor) =
      .ok (List.ofFn (keyA i) ++ List.ofFn (keyB i)) := by
    intro i _
    refine sortKeys_append ?_ ?_
    · rw [sortKeys_eq_mapM, mapM_eq_ok (hkeyA i)]
    · rw [sortKeys_eq_mapM, mapM_eq_ok (hkeyB i)]
  have hboth := sortItems_map_keys accessor hrow
  have hitems : places.map items.get = items := List.map_get_finRange items
  have hlex : (fun i j => orderKeys (major ++ minor) (List.ofFn (keyA i) ++ List.ofFn (keyB i))
      (List.ofFn (keyA j) ++ List.ofFn (keyB j)) == .lt) =
        Sorting.lex (comesBefore major keyA) (comesBefore minor keyB) := by
    funext i j
    exact orderKeys_append_eq_lex keyA keyB i j
  have hweakA : Sorting.Weak (comesBefore major keyA) := Ordered.weak hmajor hkeyA
  have hweakB : Sorting.Weak (comesBefore minor keyB) := Ordered.weak hminor hkeyB
  rw [hitems, hlex, consistent_arrange (hweakA.lex hweakB), ← Sorting.sort_sort hweakA hweakB
    (fun _ _ hij hji => (hij.asymm hji).elim) (List.pairwise_lt_finRange _)] at hboth
  have hfirst := sortItems_eq_places accessor hkeyB
  rw [consistent_arrange hweakB] at hfirst
  have hsecond := sortItems_places accessor hkeyA (Sorting.sort (comesBefore minor keyB) places)
  rw [consistent_arrange hweakA] at hsecond
  exact ⟨_, _, hfirst, hsecond, hboth⟩

/-- Sorted items stay as they are. -/
theorem sortItems_of_sorted (h : Ordered accessor terms items) {sorted : List Value}
    (hsorted : sortItems accessor terms items = .ok sorted) :
    sortItems accessor terms sorted = .ok sorted := by
  obtain ⟨key, hread⟩ := (readable_of_sortItems hsorted).exists_key
  have hweak := h.weak hread
  rw [sortItems_eq_places accessor hread, consistent_arrange hweak] at hsorted
  rw [← Except.ok.inj hsorted, sortItems_places accessor hread, consistent_arrange hweak,
    Sorting.sort_sort hweak hweak (fun _ _ hij hji => (hij.asymm hji).elim)
    (List.pairwise_lt_finRange _), Sorting.lex_self]
  rfl

/-- Two sorts in a row that succeed have read the keys of both. -/
theorem readable_of_sort_sort {sorted : List Value}
    (h : (sortItems accessor minor items).bind (sortItems accessor major) = .ok sorted) :
    Readable accessor (major ++ minor) items := by
  cases hfirst : sortItems accessor minor items with
  | error e =>
    rw [hfirst] at h
    cases h
  | ok first =>
    rw [hfirst] at h
    have hread := readable_of_sortItems h
    rw [Readable.perm (sortItems_perm hfirst)] at hread
    exact readable_append_iff.2 ⟨hread, readable_of_sortItems hfirst⟩

/-- Two sorts in a row that can read their keys fail only where the order of some contradicts
itself. -/
theorem Readable.eq_contradictoryOrder_of_twice (h : Readable accessor (major ++ minor) items)
    {e : EvalError}
    (he : (sortItems accessor minor items).bind (sortItems accessor major) = .error e) :
    e = .contradictoryOrder := by
  obtain ⟨hmajor, hminor⟩ := readable_append_iff.1 h
  cases hfirst : sortItems accessor minor items with
  | error e' =>
    rw [hfirst] at he
    cases he
    exact hminor.eq_contradictoryOrder hfirst
  | ok first =>
    rw [hfirst] at he
    rw [← Readable.perm (sortItems_perm hfirst)] at hmajor
    exact hmajor.eq_contradictoryOrder he

end

/-! ### The modifiers -/

/-- What a sort and the modifiers behind it make of a sequence. -/
theorem result_runModifiers_sort (accessor : Accessor) (aliasName : String) (terms : List SortTerm)
    (modifiers : List Modifier) {v : Value} {items : List Value}
    (hv : v.sequence "sort" = .ok items) (g : Generator) :
    (runModifiers accessor aliasName (.sort terms :: modifiers) v g).result =
      (sortItems accessor terms items).bind fun sorted =>
        (runModifiers accessor aliasName modifiers (.array sorted) g).result := by
  have hsteady := steady_runModifier accessor aliasName
    (nofun : Modifier.sort terms ≠ .randomize) v
  rw [runModifiers, hsteady.result_bind, result_runModifier_sort accessor aliasName terms hv]
  cases sortItems accessor terms items <;> rfl

/-- What a sort makes of a sequence. -/
theorem result_sort (accessor : Accessor) (aliasName : String) (terms : List SortTerm) {v : Value}
    {items : List Value} (hv : v.sequence "sort" = .ok items) (g : Generator) :
    (runModifiers accessor aliasName [.sort terms] v g).result =
      (sortItems accessor terms items).map .array := by
  rw [result_runModifiers_sort accessor aliasName terms [] hv]
  cases sortItems accessor terms items <;> rfl

/-- What two sorts in a row make of a sequence. -/
theorem result_sort_sort (accessor : Accessor) (aliasName : String) (minor major : List SortTerm)
    {v : Value} {items : List Value} (hv : v.sequence "sort" = .ok items) (g : Generator) :
    (runModifiers accessor aliasName [.sort minor, .sort major] v g).result =
      ((sortItems accessor minor items).bind (sortItems accessor major)).map .array := by
  rw [result_runModifiers_sort accessor aliasName minor _ hv]
  cases sortItems accessor minor items with
  | error e => rfl
  | ok first => exact result_sort accessor aliasName major rfl g

/-- **Sorts compose.** Of an array, or of the values of an object, a sort by `minor` and then one by
`major` makes the array that the single sort by the terms of `major` and behind them those of
`minor` makes, if all keys can be read and their order is transitive term by term, as it is if no
key is a binary number. If some key of either sort cannot be read, both sides fail; otherwise
neither does, unless the order of the keys contradicts itself. Sorting twice by the same terms is
sorting once. -/
theorem runModifiers_sort_sort (accessor : Accessor) (aliasName : String)
    (minor major : List SortTerm) {v : Value} {items : List Value}
    (hv : v = .array items ∨ ∃ entries, v = .object entries ∧ items = entries.map Prod.snd)
    (g : Generator) :
    let result (sorts : List (List SortTerm)) :=
      (runModifiers accessor aliasName (sorts.map .sort) v g).result
    ((∀ item ∈ items, ∀ term ∈ major ++ minor, ∀ x,
        accessor.getValue item term.property ≠ .ok (.float x)) →
      Ordered accessor (major ++ minor) items) ∧
    (Ordered accessor (major ++ minor) items → Readable accessor (major ++ minor) items →
      ∃ sorted : List Value, sorted.Perm items ∧ result [minor, major] = .ok (.array sorted) ∧
        result [major ++ minor] = .ok (.array sorted)) ∧
    (Ordered accessor (major ++ minor) items →
      ((∃ w, result [minor, major] = .ok w) ↔ Readable accessor (major ++ minor) items) ∧
      ((∃ w, result [major ++ minor] = .ok w) ↔ Readable accessor (major ++ minor) items)) ∧
    (¬ Readable accessor (major ++ minor) items →
      (∃ e, result [minor, major] = .error e) ∧ ∃ e, result [major ++ minor] = .error e) ∧
    (Readable accessor (major ++ minor) items → ∀ e,
      result [minor, major] = .error e ∨ result [major ++ minor] = .error e →
        e = .contradictoryOrder) ∧
    (Ordered accessor major items → result [major, major] = result [major]) := by
  intro result
  have hsequence : v.sequence "sort" = .ok items := by
    obtain rfl | ⟨entries, rfl, rfl⟩ := hv <;> rfl
  have hone (terms : List SortTerm) : result [terms] = (sortItems accessor terms items).map .array :=
    result_sort accessor aliasName terms hsequence g
  have htwo (terms terms' : List SortTerm) : result [terms, terms'] =
      ((sortItems accessor terms items).bind (sortItems accessor terms')).map .array :=
    result_sort_sort accessor aliasName terms terms' hsequence g
  have hread : ∀ w, result [minor, major] = .ok w ∨ result [major ++ minor] = .ok w →
      Readable accessor (major ++ minor) items := by
    rw [htwo, hone]
    rintro w (hw | hw)
    · obtain ⟨sorted, hsorted, -⟩ := map_eq_ok_iff.1 hw
      exact readable_of_sort_sort hsorted
    · obtain ⟨sorted, hsorted, -⟩ := map_eq_ok_iff.1 hw
      exact readable_of_sortItems hsorted
  have hsorted : Ordered accessor (major ++ minor) items →
      Readable accessor (major ++ minor) items →
      ∃ sorted : List Value, sorted.Perm items ∧ result [minor, major] = .ok (.array sorted) ∧
        result [major ++ minor] = .ok (.array sorted) := by
    intro h hkeys
    obtain ⟨first, second, hfirst, hsecond, hboth⟩ := exists_sortItems_sortItems hkeys h
    refine ⟨second, sortItems_perm hboth, ?_, ?_⟩
    · rw [htwo, hfirst]
      exact congrArg (Except.map Value.array) hsecond
    · rw [hone, hboth]
      rfl
  have hfails : ∀ x : Except EvalError Value, (∀ w, x ≠ .ok w) → ∃ e, x = .error e := by
    rintro (e | w) hx
    · exact ⟨e, rfl⟩
    · exact absurd rfl (hx w)
  refine ⟨ordered_of_no_float, hsorted, fun h => ⟨⟨fun ⟨w, hw⟩ => hread w (.inl hw), fun hkeys => ?_⟩,
    ⟨fun ⟨w, hw⟩ => hread w (.inr hw), fun hkeys => ?_⟩⟩, fun hkeys => ?_, fun hkeys e he => ?_,
    fun h => ?_⟩
  · obtain ⟨sorted, -, htwice, -⟩ := hsorted h hkeys
    exact ⟨_, htwice⟩
  · obtain ⟨sorted, -, -, hboth⟩ := hsorted h hkeys
    exact ⟨_, hboth⟩
  · exact ⟨hfails _ fun w hw => hkeys (hread w (.inl hw)),
      hfails _ fun w hw => hkeys (hread w (.inr hw))⟩
  · rw [htwo, hone, map_eq_error_iff, map_eq_error_iff] at he
    exact he.elim hkeys.eq_contradictoryOrder_of_twice hkeys.eq_contradictoryOrder
  · rw [htwo, hone]
    cases honce : sortItems accessor major items with
    | error e => rfl
    | ok sorted => exact congrArg (Except.map Value.array) (sortItems_of_sorted h honce)

/-- Rows by label and then by falling number, with a tie in each of the two. -/
theorem runModifiers_sort_sort_rows :
    let row (n : Int64) (label : String) : Value :=
      .object [("n", .integer n), ("label", .string label)]
    let items := [row 1 "b", row 2 "a", row 1 "a"]
    let minor : List SortTerm := [⟨"label", .ascending⟩]
    let major : List SortTerm := [⟨"n", .descending⟩]
    let result (sorts : List (List SortTerm)) :=
      (runModifiers {} "rows" (sorts.map .sort) (.array items) ⟨0⟩).result
    Ordered {} (major ++ minor) items ∧ Readable {} (major ++ minor) items ∧
      (∃ sorted : List Value, sorted.Perm items ∧ result [minor, major] = .ok (.array sorted) ∧
        result [major ++ minor] = .ok (.array sorted)) ∧
      result [major, major] = result [major] := by
  intro row items minor major result
  have hrow : ∀ n label, ∀ term ∈ major ++ minor, ∃ key,
      Accessor.getValue {} (row n label) term.property = .ok key ∧ ∀ x, key ≠ .float x := by
    intro n label term hterm
    rcases List.mem_pair.1 hterm with rfl | rfl
    · exact ⟨.integer n, by cbv, fun _ h => Value.noConfusion h⟩
    · exact ⟨.string label, by cbv, fun _ h => Value.noConfusion h⟩
  have hkey : ∀ item ∈ items, ∀ term ∈ major ++ minor, ∃ key,
      Accessor.getValue {} item term.property = .ok key ∧ ∀ x, key ≠ .float x :=
    List.forall_mem_cons.2 ⟨hrow _ _, List.forall_mem_cons.2 ⟨hrow _ _,
      List.forall_mem_singleton.2 (hrow _ _)⟩⟩
  have hread : Readable {} (major ++ minor) items := fun item hitem term hterm =>
    (hkey item hitem term hterm).imp fun _ h => h.1
  have hfloat : ∀ item ∈ items, ∀ term ∈ major ++ minor, ∀ x,
      Accessor.getValue {} item term.property ≠ .ok (.float x) := by
    intro item hitem term hterm x hx
    obtain ⟨key, hkey, hne⟩ := hkey item hitem term hterm
    rw [hx, Except.ok.injEq] at hkey
    exact hne x hkey.symm
  obtain ⟨hordered, hsorted, -, -, -, htwice⟩ :=
    runModifiers_sort_sort {} "rows" minor major (.inl (rfl : Value.array items = _)) ⟨0⟩
  have h := hordered hfloat
  exact ⟨h, hread, hsorted h hread, htwice fun term hterm => h term (List.mem_append_left _ hterm)⟩

example :
    let row (n : Int64) (label : String) : Value :=
      .object [("n", .integer n), ("label", .string label)]
    (runModifiers {} "rows" [.sort [⟨"label", .ascending⟩], .sort [⟨"n", .descending⟩]]
      (.array [row 1 "b", row 2 "a", row 1 "a"]) ⟨0⟩).result =
        .ok (.array [row 2 "a", row 1 "a", row 1 "b"]) := by
  cbv

end NestedQuery
