/-
# Sorting by dates and by their texts

Sorting the objects of an array by a date puts them in the order of the
instants. If the dates are projected by a sub-query, the evaluator has made
texts of them before the rows are sorted, and the rows come in the order of
the texts. That is the order of what local clocks show, to the second, so it
is the order of the instants, to the second, among dates of one offset; and
if all of the dates are of one offset and at whole seconds, both sorts put the
objects in the same order.

Key theorems: `sortItems_map`, `Sorting.sort_congr`, `apply_sort_dates`.
-/
import Mathlib.Tactic
import NestedQuery.Proofs.IsoOrder
import NestedQuery.Proofs.ProjectedSort

namespace NestedQuery

open Text Grammar

variable {name path : String}

/-! ### Sorting what is behind the keys -/

section

variable {α : Type} {objects : List α}

theorem not_before_iff {a b : Value} : (b.order a == .lt) = false ↔ (a.order b).isLE := by
  rw [Value.order_swap a b]
  cases a.order b <;> decide

/-- Keys are ordered if none is a binary number. -/
theorem weak_order {key : α → Value} (hkey : ∀ object x, key object ≠ .float x) :
    Sorting.Weak fun a b => (key a).order (key b) == .lt where
  asymm {a b} hab := by
    rw [not_before_iff, beq_iff_eq.1 hab]
    rfl
  trans {a b c} hab hbc := by
    rw [not_before_iff] at hab hbc ⊢
    have hordered : Value.Preordered (Set.range key) := by
      refine .of_no_float ?_
      rintro _ ⟨object, rfl⟩
      exact hkey object
    exact hordered _ ⟨a, rfl⟩ _ ⟨b, rfl⟩ _ ⟨c, rfl⟩ hab hbc

/-- The items of some objects are sorted as the objects are by the keys of the items, if none of
these is a binary number. -/
theorem sortItems_map (accessor : Accessor) {item key : α → Value}
    (hread : ∀ object ∈ objects, accessor.getValue (item object) path = .ok (key object))
    (hkey : ∀ object x, key object ≠ .float x) :
    sortItems accessor [⟨path, .ascending⟩] (objects.map item) =
      .ok ((Sorting.sort (fun a b => (key a).order (key b) == .lt) objects).map item) := by
  have hrow : ∀ object ∈ objects,
      sortKeys accessor (item object) [⟨path, .ascending⟩] = .ok [key object] := by
    intro object hobject
    rw [sortKeys, hread object hobject]
    rfl
  have hbefore : (fun a b => orderKeys [⟨path, .ascending⟩] [key a] [key b] == .lt) =
      fun a b => (key a).order (key b) == .lt := by
    funext a b
    rw [orderKeys]
    cases (key a).order (key b) <;> rfl
  rw [sortItems_map_keys accessor hrow, hbefore, consistent_arrange (weak_order hkey)]
  rfl

/-- Orders that agree on the objects sort them alike. -/
theorem Sorting.sort_congr {before before' : α → α → Bool}
    (h : ∀ a ∈ objects, ∀ b ∈ objects, before a b = before' a b) :
    Sorting.sort before objects = Sorting.sort before' objects := by
  let ahead (a b : {object // object ∈ objects}) : Bool := before a.1 b.1
  have hmap : ∀ order : α → α → Bool, (∀ a b : {object // object ∈ objects},
      order a.1 b.1 = ahead a b) →
        Sorting.sort order objects = (Sorting.sort ahead objects.attach).map Subtype.val := by
    intro order horder
    have hsorted := Sorting.sort_map horder objects.attach
    rwa [List.attach_map_subtype_val] at hsorted
  rw [hmap before fun _ _ => rfl, hmap before' fun a b => (h a.1 a.2 b.1 b.2).symm]

/-- Keys come in order if none is a binary number. -/
theorem pairwise_sort_keys (key : α → Value) (hkey : ∀ object x, key object ≠ .float x)
    (objects : List α) :
    (Sorting.sort (fun a b => (key a).order (key b) == .lt) objects).Pairwise
      fun a b => ((key a).order (key b)).isLE := by
  have hall : objects.Pairwise fun _ _ => True := List.pairwise_of_forall fun _ _ => trivial
  exact (Sorting.pairwise_sort (weak_order hkey) hall).imp fun hab => not_before_iff.1 hab.1

end

/-! ### Dates -/

/-- A key without a sub-query stores the text of the date that is under it. -/
theorem Evaluator.answer_date {object : Entries Value} {key : String} {t : DateTime}
    (h : object.get? key = some (.dateTime t)) :
    Evaluator.answer {} (.value (.object object)) (.ofPath key) = pure (.string t.iso) := by
  have hread : (Value.object object).read (.field key) = .ok (some (.dateTime t)) :=
    congrArg Except.ok h
  have hkey : Accessor.getKey {} (.object object) key = .ok (.dateTime t) := by
    rw [Accessor.getKey, hread]
  exact Evaluator.answer_of_prepare hkey rfl rfl

/-- **Sorting by dates is chronological, and sorting by projected dates is not: it goes by their
texts.** Both texts are queries. Each object of the array under the name has a date under the key.
Sorting by the key puts the objects in the order of the instants. Projecting the key as well gives
rows with the texts of the dates, in the order of these texts. Where local years have four digits
that is the order of what local clocks show, to the second, and at one offset that of the instants,
to the second. If all dates are such, of one offset and at whole seconds, both queries put the
objects in the same order. -/
theorem apply_sort_dates {key : String} (hn : IsName name) (hk : IsName key)
    {entries : Entries Value} {objects : List (Entries Value)}
    (hget : entries.get? name = some (.array (objects.map .object)))
    {date : Entries Value → DateTime}
    (hdate : ∀ object ∈ objects, object.get? key = some (.dateTime (date object))) :
    let result (query : Query) (g : Generator) :=
      (Evaluator.apply {} query (.value (.object entries)) g).result
    let row (object : Entries Value) := projectedRow key (.string (date object).iso)
    ∃ plain projected, parse (name ++ "|sort: " ++ key) = .ok plain ∧
      parse (name ++ "|sort: " ++ key ++ " \x7b " ++ key ++ " \x7d") = .ok projected ∧
      ∃ byDate byText : List (Entries Value), byDate.Perm objects ∧ byText.Perm objects ∧
        (∀ g, result plain g = .ok (some [(name, .array (byDate.map .object))])) ∧
        byDate.Pairwise (fun a b => ((date a).order (date b)).isLE) ∧
        (∀ g, result projected g = .ok (some [(name, .array (byText.map row))])) ∧
        byText.Pairwise (fun a b => (compare (date a).iso (date b).iso).isLE ∧
          ((date a).Ordinary → (date b).Ordinary →
            (date a).localSecond ≤ (date b).localSecond ∧
            ((date a).offset = (date b).offset →
              (date a).wholeSecond ≤ (date b).wholeSecond))) ∧
        ((∀ object ∈ objects, (date object).Ordinary ∧ (date object).nanos = 0) →
          (∀ a ∈ objects, ∀ b ∈ objects, (date a).offset = (date b).offset) →
            byText = byDate) := by
  intro result row
  have hpath := isPath_of_isName hk
  have hdot := not_mem_of_isName hk
  have hvalue : ∀ object ∈ objects,
      Accessor.getValue {} (.object object) key = .ok (.dateTime (date object)) :=
    fun object hmem => Accessor.getValue_entry {} hpath hdot (hdate object hmem)
  have hrow : ∀ object ∈ objects,
      Accessor.getValue {} (row object) key = .ok (.string (date object).iso) :=
    fun object _ => Accessor.getValue_row {} hpath hdot _
  have hanswer : ∀ object ∈ objects,
      Evaluator.answer {} (.value (.object object)) (.ofPath key) =
        pure (.string (date object).iso) :=
    fun object hmem => Evaluator.answer_date (hdate object hmem)
  let instant (object : Entries Value) : Value := .dateTime (date object)
  let text (object : Entries Value) : Value := .string (date object).iso
  let byDate := Sorting.sort (fun a b => (instant a).order (instant b) == .lt) objects
  let byText := Sorting.sort (fun a b => (text a).order (text b) == .lt) objects
  have hinstant : ∀ object x, instant object ≠ .float x := fun _ _ h => Value.noConfusion h
  have htext : ∀ object x, text object ≠ .float x := fun _ _ h => Value.noConfusion h
  have hdates : byDate.Pairwise fun a b => ((date a).order (date b)).isLE :=
    pairwise_sort_keys instant hinstant objects
  have htexts : byText.Pairwise fun a b => (compare (date a).iso (date b).iso).isLE :=
    pairwise_sort_keys text htext objects
  refine ⟨_, _, parse_sorted hn hpath, parse_projected hn hpath, byDate, byText,
    Sorting.sort_perm _ _, Sorting.sort_perm _ _, fun g => ?_, hdates, fun g => ?_,
    htexts.imp fun hab => ⟨hab, fun ha hb => ⟨DateTime.localSecond_le_of_iso ha hb hab,
      fun hoffset => DateTime.wholeSecond_le_of_iso ha hb hoffset hab⟩⟩, fun hwhole hoffset => ?_⟩
  · show Outcome.result _ = _
    rw [Evaluator.result_apply_sorted rfl hget rfl, sortItems_map {} hvalue hinstant]
    rfl
  · show Outcome.result _ = _
    rw [Evaluator.result_apply_rows rfl hget hanswer, sortItems_map {} hrow htext]
    rfl
  · refine Sorting.sort_congr fun a ha b hb => ?_
    show (compare (date a).iso (date b).iso == .lt) = ((date a).order (date b) == .lt)
    rw [DateTime.compare_iso_eq_order (hwhole a ha).1 (hwhole b hb).1 (hoffset a ha b hb)
      (hwhole a ha).2 (hwhole b hb).2]

/-- Two dates an hour apart, of one offset and at whole seconds, are put in the same order by both
queries. -/
theorem apply_sort_dates_hour :
    let early : DateTime := ⟨1577833200, 0, 3600⟩
    let late : DateTime := ⟨1577836800, 0, 3600⟩
    let object (t : DateTime) : Entries Value := [("d", .dateTime t)]
    let objects := [object late, object early]
    let entries : Entries Value := [("xs", .array (objects.map .object))]
    let date : Entries Value → DateTime
      | [(_, .dateTime t)] => t
      | _ => late
    let row (object : Entries Value) := projectedRow "d" (.string (date object).iso)
    IsName "xs" ∧ IsName "d" ∧ entries.get? "xs" = some (.array (objects.map .object)) ∧
      (∀ object ∈ objects, object.get? "d" = some (.dateTime (date object))) ∧
      (∀ object ∈ objects, (date object).Ordinary ∧ (date object).nanos = 0) ∧
      (∀ a ∈ objects, ∀ b ∈ objects, (date a).offset = (date b).offset) ∧
      ∃ plain projected, parse "xs|sort: d" = .ok plain ∧
        parse "xs|sort: d \x7b d \x7d" = .ok projected ∧
        ∃ sorted : List (Entries Value), sorted.Perm objects ∧
          (Evaluator.apply {} plain (.value (.object entries)) ⟨0⟩).result =
            .ok (some [("xs", .array (sorted.map .object))]) ∧
          sorted.Pairwise (fun a b => ((date a).order (date b)).isLE) ∧
          (Evaluator.apply {} projected (.value (.object entries)) ⟨0⟩).result =
            .ok (some [("xs", .array (sorted.map row))]) := by
  intro early late object objects entries date row
  have hxs : IsName "xs" := by decide
  have hd : IsName "d" := by decide
  have hget : entries.get? "xs" = some (.array (objects.map .object)) := if_pos rfl
  have hdate : ∀ object ∈ objects, object.get? "d" = some (.dateTime (date object)) :=
    List.forall_mem_cons.2 ⟨rfl, List.forall_mem_singleton.2 rfl⟩
  have hearly : early.Ordinary := by decide +kernel
  have hlate : late.Ordinary := by decide +kernel
  have hwhole : ∀ object ∈ objects, (date object).Ordinary ∧ (date object).nanos = 0 :=
    List.forall_mem_cons.2 ⟨⟨hlate, rfl⟩, List.forall_mem_singleton.2 ⟨hearly, rfl⟩⟩
  have hhour : ∀ object ∈ objects, (date object).offset = 3600 :=
    List.forall_mem_cons.2 ⟨rfl, List.forall_mem_singleton.2 rfl⟩
  have hoffset : ∀ a ∈ objects, ∀ b ∈ objects, (date a).offset = (date b).offset :=
    fun a ha b hb => (hhour a ha).trans (hhour b hb).symm
  obtain ⟨plain, projected, hplain, hprojected, byDate, byText, hperm, -, hresult, hpairs,
    hresult', -, hsame⟩ := apply_sort_dates hxs hd hget hdate
  have hsorted : "xs" ++ "|sort: " ++ "d" = "xs|sort: d" := by simp
  have hbraced : "xs" ++ "|sort: " ++ "d" ++ " \x7b " ++ "d" ++ " \x7d" =
      "xs|sort: d \x7b d \x7d" := by simp
  rw [hsame hwhole hoffset] at hresult'
  exact ⟨hxs, hd, hget, hdate, hwhole, hoffset, plain, projected, hsorted ▸ hplain,
    hbraced ▸ hprojected, byDate, hperm, hresult ⟨0⟩, hpairs, hresult' ⟨0⟩⟩

/-- Of two dates at different offsets the earlier instant can have the later text. -/
theorem exists_unsorted_dates :
    let early : DateTime := ⟨1577831400, 0, 7200⟩
    let late : DateTime := ⟨1577833200, 0, 0⟩
    let object (t : DateTime) : Value := .object [("d", .dateTime t)]
    let row (text : String) : Value := .object [("d", .string text)]
    let root : Root := .value (.object [("xs", .array [object early, object late])])
    ∃ plain projected, parse "xs|sort: d" = .ok plain ∧
      parse "xs|sort: d \x7b d \x7d" = .ok projected ∧
      (Evaluator.apply {} plain root ⟨0⟩).result =
        .ok (some [("xs", .array [object early, object late])]) ∧
      (Evaluator.apply {} projected root ⟨0⟩).result =
        .ok (some [("xs", .array [row "2019-12-31T23:00:00+00:00",
          row "2020-01-01T00:30:00+02:00"])]) ∧
      late.iso = "2019-12-31T23:00:00+00:00" ∧ early.iso = "2020-01-01T00:30:00+02:00" ∧
      ¬ (late.order early).isLE := by
  intro early late object row root
  have hxs : IsName "xs" := by decide
  have hd : IsPath "d" := isPath_of_isName (by decide)
  have hsorted : "xs" ++ "|sort: " ++ "d" = "xs|sort: d" := by simp
  have hbraced : "xs" ++ "|sort: " ++ "d" ++ " \x7b " ++ "d" ++ " \x7d" =
      "xs|sort: d \x7b d \x7d" := by simp
  exact ⟨_, _, hsorted ▸ parse_sorted hxs hd, hbraced ▸ parse_projected hxs hd, by cbv, by cbv,
    by cbv, by cbv, by decide⟩

end NestedQuery
