/-
# Sorting behind a shuffle

What a sort makes of some items depends on the order in which they came only
where items tie: two permutations of the same items are sorted to lists that
tie place by place (`Sorting.forall₂_sort_of_perm`), since up to ties there is
one way to put them in order. So if no two items tie on all terms, a sort
hides a shuffle in front of it, and everything behind it is the same in every
run.

Key definition: `Sorting.Weak.preorder`.
Key theorems: `Sorting.forall₂_sort_of_perm`, `exists_places_sortItems_perm`,
`result_runModifiers_sort_of_perm`, `apply_randomize_sort`.
-/
import Mathlib.Order.Antisymmetrization
import NestedQuery.Proofs.SortComposition
import NestedQuery.Proofs.Stages

namespace NestedQuery

/-! ### Two permutations of the same items -/

namespace Sorting

variable {α : Type} {before : α → α → Bool}

/-- The items in order, where those that tie are below each other. -/
abbrev Weak.preorder (hw : Weak before) : Preorder α where
  le a b := before b a = false
  le_refl := hw.irrefl
  le_trans _ _ _ := hw.trans

/-- Items in another order are sorted alike, up to ties. -/
theorem forall₂_sort_of_perm (hw : Weak before) {xs ys : List α} (h : xs.Perm ys) :
    List.Forall₂ (fun a b => before a b = false ∧ before b a = false) (sort before xs)
      (sort before ys) := by
  let _ : Preorder α := hw.preorder
  let tied : α → Antisymmetrization α (· ≤ ·) := toAntisymmetrization (· ≤ ·)
  have hsorted : ∀ zs, ((sort before zs).map tied).Pairwise (· ≤ ·) := by
    intro zs
    have hall : zs.Pairwise fun _ _ => True := List.pairwise_of_forall fun _ _ => trivial
    exact List.pairwise_map.2 ((pairwise_sort hw hall).imp And.left)
  have hperm : ((sort before xs).map tied).Perm ((sort before ys).map tied) :=
    (((sort_perm before xs).trans h).trans (sort_perm before ys).symm).map tied
  have heq := hperm.eq_of_pairwise' (hsorted xs) (hsorted ys)
  rw [← List.forall₂_eq_eq_eq, List.forall₂_map_left_iff, List.forall₂_map_right_iff] at heq
  refine heq.imp fun a b hab => ?_
  have htie : AntisymmRel (· ≤ ·) a b := Quotient.exact hab
  exact htie.symm

end Sorting

section

variable {accessor : Accessor} {terms : List SortTerm} {items shuffled shuffled' : List Value}
  {key : Fin items.length → Fin terms.length → Value}

/-- Items in another order are those at some places. -/
theorem exists_places_of_perm (h : shuffled.Perm items) :
    ∃ places : List (Fin items.length), places.Perm (List.finRange items.length) ∧
      shuffled = places.map items.get := by
  have hitems : List.Forall₂ (fun item i => item = items.get i) items
      (List.finRange items.length) := by
    rw [← List.forall₂_map_right_iff (R := Eq), List.forall₂_eq_eq_eq]
    exact (List.map_get_finRange items).symm
  obtain ⟨places, hplaces, hperm⟩ := List.perm_comp_forall₂ h hitems
  rw [← List.forall₂_map_right_iff (R := Eq), List.forall₂_eq_eq_eq] at hplaces
  exact ⟨places, hperm, hplaces⟩

theorem ties_iff {i j : Fin items.length} :
    (comesBefore terms key i j = false ∧ comesBefore terms key j i = false) ↔
      ∀ k, (key i k).order (key j k) = .eq := by
  rw [comesBefore_eq_false_iff, comesBefore_eq_false_iff, orderKeys_swap (key i) (key j),
    ← orderKeys_eq_eq_iff]
  cases orderKeys terms (List.ofFn (key i)) (List.ofFn (key j)) <;> decide

/-- Two permutations of the same items are sorted to permutations that tie place by place. -/
theorem exists_places_sortItems_perm
    (hread : ∀ i k, accessor.getValue (items.get i) (terms.get k).property = .ok (key i k))
    (hordered : ∀ k, Value.Preordered (Set.range fun i => key i k)) (h : shuffled.Perm items)
    (h' : shuffled'.Perm items) :
    ∃ places places' : List (Fin items.length),
      places.Perm (List.finRange items.length) ∧ places'.Perm (List.finRange items.length) ∧
      sortItems accessor terms shuffled = .ok (places.map items.get) ∧
      sortItems accessor terms shuffled' = .ok (places'.map items.get) ∧
      List.Forall₂ (fun i j => ∀ k, (key i k).order (key j k) = .eq) places places' := by
  obtain ⟨places, hperm, rfl⟩ := exists_places_of_perm h
  obtain ⟨places', hperm', rfl⟩ := exists_places_of_perm h'
  have hweak : Sorting.Weak (comesBefore terms key) := weak_comesBefore hordered
  have hsorted : ∀ places : List (Fin items.length),
      sortItems accessor terms (places.map items.get) =
        .ok ((Sorting.sort (comesBefore terms key) places).map items.get) := by
    intro places
    refine (sortItems_places accessor hread places).trans ?_
    rw [consistent_arrange hweak]
    rfl
  have hties := Sorting.forall₂_sort_of_perm hweak (hperm.trans hperm'.symm)
  exact ⟨_, _, (Sorting.sort_perm _ _).trans hperm, (Sorting.sort_perm _ _).trans hperm',
    hsorted places, hsorted places', hties.imp fun _ _ => ties_iff.1⟩

/-- If no two items tie, the order in which they came does not matter. -/
theorem sortItems_eq_of_perm
    (hread : ∀ i k, accessor.getValue (items.get i) (terms.get k).property = .ok (key i k))
    (hordered : ∀ k, Value.Preordered (Set.range fun i => key i k))
    (hdistinct : ∀ i j, (∀ k, (key i k).order (key j k) = .eq) → i = j)
    (h : shuffled.Perm items) :
    sortItems accessor terms shuffled = sortItems accessor terms items := by
  obtain ⟨places, places', -, -, hsorted, hsorted', hties⟩ :=
    exists_places_sortItems_perm hread hordered h (List.Perm.refl items)
  have heq := hties.imp fun i j => hdistinct i j
  rw [List.forall₂_eq_eq_eq] at heq
  rw [hsorted, hsorted', heq]

end

/-! ### The modifiers -/

section

variable (accessor : Accessor) (aliasName : String) {terms : List SortTerm}
  {modifiers : List Modifier} {v : Value} {items shuffled : List Value}

/-- The modifiers behind a shuffle run on a permutation of the items. -/
theorem exists_shuffled (modifiers : List Modifier) (hv : v.sequence "randomize" = .ok items)
    (g : Generator) :
    ∃ shuffled g', shuffled.Perm items ∧
      (runModifiers accessor aliasName (.randomize :: modifiers) v g).result =
        (runModifiers accessor aliasName modifiers (.array shuffled) g').result := by
  have hshuffle : runModifier accessor aliasName .randomize v g =
      ⟨.ok (.array (g.shuffle items).1), [.modifierApplied aliasName "randomize"],
        (g.shuffle items).2⟩ := by
    simp only [runModifier, hv]
    rfl
  refine ⟨(g.shuffle items).1, (g.shuffle items).2, Generator.shuffle_perm items g, ?_⟩
  rw [runModifiers, Eval.ok_bind hshuffle]

/-- If no two items tie, a sort and what is not random behind it do the same in every run with
every permutation of the items. -/
theorem result_runModifiers_sort_of_perm
    {key : Fin items.length → Fin terms.length → Value}
    (hread : ∀ i k, accessor.getValue (items.get i) (terms.get k).property = .ok (key i k))
    (hordered : ∀ k, Value.Preordered (Set.range fun i => key i k))
    (hdistinct : ∀ i j, (∀ k, (key i k).order (key j k) = .eq) → i = j)
    (hm : .randomize ∉ modifiers) (h : shuffled.Perm items) (hv : v.sequence "sort" = .ok items)
    (g g' : Generator) :
    (runModifiers accessor aliasName (.sort terms :: modifiers) (.array shuffled) g).result =
      (runModifiers accessor aliasName (.sort terms :: modifiers) v g').result := by
  rw [result_runModifiers_sort accessor aliasName terms modifiers rfl,
    result_runModifiers_sort accessor aliasName terms modifiers hv,
    sortItems_eq_of_perm hread hordered hdistinct h]
  congr 1
  funext sorted
  exact (steady_runModifiers accessor aliasName hm _).result_eq g g'

/-- If some key cannot be read, a sort fails with every permutation of the items. -/
theorem exists_runModifiers_sort_eq_error (modifiers : List Modifier)
    (h : ¬ Readable accessor terms items) (hv : v.sequence "sort" = .ok shuffled)
    (hperm : shuffled.Perm items) (g : Generator) :
    ∃ e, (runModifiers accessor aliasName (.sort terms :: modifiers) v g).result = .error e := by
  obtain ⟨e, he⟩ := exists_sortItems_eq_error ((Readable.perm hperm).not.2 h)
  refine ⟨e, ?_⟩
  rw [result_runModifiers_sort accessor aliasName terms modifiers hv, he]
  rfl

end

/-- **A sort hides a shuffle in front of it.** Let the property under the path be an array or object
once it is prepared, the same whatever the modifiers are, let the keys of its items be read, and let
their order be transitive term by term, as it is if no key is a binary number. Then two permutations
of the items are sorted to lists that tie on all terms, place by place. If no two items tie on all
terms, every permutation of them is sorted alike; the entity that shuffles first gives in every run
what the one that only sorts gives in any, and so it does with more modifiers behind the sort that
are not random. If some key cannot be read, both fail in every run. -/
theorem apply_randomize_sort (ev : Evaluator) (aliasName path : String)
    (identifier : Option String) (terms : List SortTerm) {entries : Entries Value}
    {found v : Value} (hget : entries.get? path = some found)
    (hprepare : ∀ modifiers,
      ev.prepare ⟨aliasName, path, identifier, none, modifiers⟩ found = .ok v)
    {items : List Value}
    (hv : v = .array items ∨ ∃ entries, v = .object entries ∧ items = entries.map Prod.snd) :
    let result (modifiers : List Modifier) (g : Generator) :=
      (ev.apply [⟨aliasName, path, identifier, none, modifiers⟩]
        (.value (.object entries)) g).result
    let sorted (shuffled : List Value) (rest : List Modifier) (g : Generator) :=
      (runModifiers ev.accessor aliasName (.sort terms :: rest) (.array shuffled) g).result
    (∀ key : Fin items.length → Fin terms.length → Value,
      (∀ i k, ev.accessor.getValue (items.get i) (terms.get k).property = .ok (key i k)) →
      ((∀ i k x, key i k ≠ .float x) → ∀ k, Value.Preordered (Set.range fun i => key i k)) ∧
      ((∀ k, Value.Preordered (Set.range fun i => key i k)) →
        (∀ shuffled shuffled', shuffled.Perm items → shuffled'.Perm items → ∀ g g',
          ∃ places places' : List (Fin items.length),
            places.Perm (List.finRange items.length) ∧
            places'.Perm (List.finRange items.length) ∧
            sorted shuffled [] g = .ok (.array (places.map items.get)) ∧
            sorted shuffled' [] g' = .ok (.array (places'.map items.get)) ∧
            List.Forall₂ (fun i j => ∀ k, (key i k).order (key j k) = .eq) places places') ∧
        ((∀ i j, (∀ k, (key i k).order (key j k) = .eq) → i = j) →
          ∀ rest, .randomize ∉ rest → ∀ g g',
            (∀ shuffled, shuffled.Perm items → sorted shuffled rest g = sorted items rest g') ∧
            result (.randomize :: .sort terms :: rest) g = result (.sort terms :: rest) g'))) ∧
    (¬ Readable ev.accessor terms items → ∀ rest g,
      (∃ e, result (.randomize :: .sort terms :: rest) g = .error e) ∧
        ∃ e, result (.sort terms :: rest) g = .error e) := by
  intro result sorted
  have hsequence : ∀ modifier, v.sequence modifier = .ok items := by
    intro modifier
    obtain rfl | ⟨entries, rfl, rfl⟩ := hv <;> rfl
  have hresult : ∀ modifiers g, result modifiers g =
      (runModifiers ev.accessor aliasName modifiers v g).result.map
        fun value => some [(aliasName, value)] := by
    intro modifiers g
    have hrealize : v.realize = .ok v := by
      obtain rfl | ⟨entries, rfl, rfl⟩ := hv <;> rfl
    show (ev.apply _ _ g).result = _
    rw [Evaluator.apply_leaf (ev.accessor.getKey_of_get? hget) rfl (hprepare modifiers) hrealize,
      Eval.map_result]
  have hshuffled := fun rest => exists_shuffled ev.accessor aliasName (.sort terms :: rest)
    (hsequence "randomize")
  refine ⟨fun key hread => ⟨fun hfloat k => .of_no_float ?_, fun hordered => ⟨?_, ?_⟩⟩, ?_⟩
  · rintro _ ⟨i, rfl⟩ x
    exact hfloat i k x
  · intro shuffled shuffled' h h' g g'
    obtain ⟨places, places', hperm, hperm', hplaces, hplaces', hties⟩ :=
      exists_places_sortItems_perm hread hordered h h'
    have hsorted : ∀ shuffled g, sorted shuffled [] g =
        (sortItems ev.accessor terms shuffled).bind fun sorted => .ok (.array sorted) :=
      fun shuffled g => result_runModifiers_sort ev.accessor aliasName terms [] rfl g
    refine ⟨places, places', hperm, hperm', ?_, ?_, hties⟩
    · rw [hsorted, hplaces]
      rfl
    · rw [hsorted, hplaces']
      rfl
  · intro hdistinct rest hrest g g'
    refine ⟨fun shuffled h => result_runModifiers_sort_of_perm ev.accessor aliasName hread hordered
      hdistinct hrest h rfl g g', ?_⟩
    obtain ⟨shuffled, g'', h, hrun⟩ := hshuffled rest g
    rw [hresult, hresult, hrun, result_runModifiers_sort_of_perm ev.accessor aliasName hread
      hordered hdistinct hrest h (hsequence "sort") g'' g']
  · intro hunreadable rest g
    obtain ⟨shuffled, g', h, hrun⟩ := hshuffled rest g
    obtain ⟨e, he⟩ := exists_runModifiers_sort_eq_error ev.accessor aliasName rest hunreadable
      (rfl : (Value.array shuffled).sequence "sort" = _) h g'
    obtain ⟨e', he'⟩ := exists_runModifiers_sort_eq_error ev.accessor aliasName rest hunreadable
      (hsequence "sort") (.refl items) g
    refine ⟨⟨e, ?_⟩, e', ?_⟩
    · rw [hresult, hrun, he]
      rfl
    · rw [hresult, he']
      rfl

/-- Three rows with different keys, shuffled or not, and cut behind the sort. -/
theorem apply_randomize_sort_rows :
    let row (n : Int64) : Value := .object [("n", .integer n)]
    let root : Root := .value (.object [("x", .array [row 3, row 1, row 2])])
    let result (modifiers : List Modifier) (g : Generator) :=
      (Evaluator.apply {} [⟨"x", "x", none, none, modifiers⟩] root g).result
    let sort : Modifier := .sort [⟨"n", .descending⟩]
    result [.randomize, sort, .limit 1 none] ⟨7⟩ = result [sort, .limit 1 none] ⟨0⟩ := by
  intro row root result sort
  let items := [row 3, row 1, row 2]
  let terms : List SortTerm := [⟨"n", .descending⟩]
  let key (i : Fin items.length) (_ : Fin terms.length) : Value := .integer ([3, 1, 2].get i)
  have hread : ∀ i k,
      Accessor.getValue {} (items.get i) (terms.get k).property = .ok (key i k) := by
    intro i k
    fin_cases k
    fin_cases i <;> cbv
  have hdistinct : ∀ i j, (∀ k, (key i k).order (key j k) = .eq) → i = j := by
    intro i j h
    have htie := h 0
    fin_cases i <;> fin_cases j <;> first | rfl | exact absurd htie (by decide)
  obtain ⟨hfloat, hsort⟩ := (apply_randomize_sort {} "x" "x" none terms
    (rfl : Entries.get? [("x", .array items)] "x" = _) (fun _ => rfl)
    (.inl (rfl : Value.array items = _))).1 key hread
  obtain ⟨-, hhidden⟩ := hsort (hfloat fun _ _ _ h => Value.noConfusion h)
  exact (hhidden hdistinct [.limit 1 none] (by simp) ⟨7⟩ ⟨0⟩).2

example :
    let row (n : Int64) : Value := .object [("n", .integer n)]
    (Evaluator.apply {} [⟨"x", "x", none, none, [.sort [⟨"n", .descending⟩], .limit 1 none]⟩]
      (.value (.object [("x", .array [row 3, row 1, row 2])])) ⟨0⟩).result =
        .ok (some [("x", .array [row 2, row 1])]) := by
  cbv

end NestedQuery
