/-
# Paging

A limit keeps the items at the places of a range, in order and as they are,
whether they are those of an array or the entries of an object
(`slice_eq_filter`). So the pages of a list, one behind the other, are the
list (`flatMap_slice`), and a limit behind a limit is a single one
(`slice_slice`). A count that is left out stands for the greatest one that can
be written, since no list is longer (`slice_getD`).

Pages come from separate evaluations. Each of them cuts the value that its
entity has in front of its last limits, and that value is the one that the
entity without these limits gives, unless a source looks at the modifiers.

Key definitions: `InRange`, `Entity.limited`.
Key theorems: `slice_eq_filter`, `flatMap_slice`, `slice_slice`,
`Evaluator.result_limited`, `Evaluator.yields_upTo_limited_iff`,
`parse_limited`, `answer_limited`.
-/
import NestedQuery.Proofs.Render.RoundTrip
import NestedQuery.Proofs.Stages
import NestedQuery.Proofs.Unkeyed

namespace NestedQuery

/-! ### Slices -/

/-- From the offset on, and less than the count behind it. -/
def InRange (offset : ℕ) (count : Option ℕ) (place : ℕ) : Prop :=
  offset ≤ place ∧ ∀ n ∈ count, place < offset + n

instance (offset : ℕ) (count : Option ℕ) (place : ℕ) : Decidable (InRange offset count place) :=
  inferInstanceAs (Decidable (_ ∧ _))

section

variable {α : Type} (items : List α)

theorem length_slice_le (offset : ℕ) (count : Option ℕ) :
    (slice offset count items).length ≤ items.length := by
  cases count <;> simp only [slice, List.length_take, List.length_drop] <;> omega

theorem slice_succ_cons (offset : ℕ) (count : Option ℕ) (x : α) (xs : List α) :
    slice (offset + 1) count (x :: xs) = slice offset count xs := by
  cases count <;> rfl

/-- The items at some places of a list with another item in front. -/
theorem map_filter_finRange_cons (p : ℕ → Prop) [DecidablePred p] (x : α) (xs : List α) :
    ((List.finRange (x :: xs).length).filter fun i : Fin (x :: xs).length => p i).map
        (x :: xs).get =
      (if p 0 then [x] else []) ++
        ((List.finRange xs.length).filter fun i : Fin xs.length => p (i + 1)).map xs.get := by
  have hplaces : List.finRange (x :: xs).length = 0 :: (List.finRange xs.length).map Fin.succ :=
    List.finRange_succ
  have hrest : (((List.finRange xs.length).map Fin.succ).filter
        fun i : Fin (x :: xs).length => p i).map (x :: xs).get =
      ((List.finRange xs.length).filter fun i : Fin xs.length => p (i + 1)).map xs.get := by
    rw [List.filter_map, List.map_map]
    rfl
  have hhead : decide (p (0 : Fin (x :: xs).length).val) = true ↔ p 0 := decide_eq_true_iff
  rw [hplaces, List.filter_cons]
  by_cases h : p 0
  · rw [if_pos h, if_pos (hhead.2 h), List.map_cons, hrest]
    rfl
  · rw [if_neg h, if_neg (hhead.not.2 h), hrest]
    rfl

/-- A slice has the items at the places of a range. -/
theorem slice_eq_filter (offset : ℕ) (count : Option ℕ) :
    slice offset count items =
      ((List.finRange items.length).filter fun i : Fin items.length => InRange offset count i).map
        items.get := by
  induction items generalizing offset count with
  | nil => cases count <;> simp [slice]
  | cons x xs ih =>
    rw [map_filter_finRange_cons]
    -- the first place counts down the offset, and then the count
    cases offset with
    | succ offset =>
      have hsucc : ∀ place, InRange (offset + 1) count (place + 1) ↔
          InRange offset count place := by
        intro place
        simp only [InRange, Nat.add_le_add_iff_right, Nat.add_right_comm offset 1,
          Nat.add_lt_add_iff_right]
      have hzero : ¬ InRange (offset + 1) count 0 := fun h =>
        absurd h.1 (Nat.not_succ_le_zero offset)
      simp only [if_neg hzero, hsucc, List.nil_append]
      rw [slice_succ_cons, ih]
    | zero =>
      cases count with
      | none =>
        have hall : ∀ place, InRange 0 none place ↔ True := by simp [InRange]
        have hrest := ih 0 none
        simp only [hall] at hrest ⊢
        rw [← hrest]
        rfl
      | some count =>
        cases count with
        | zero =>
          have hnone : ∀ place, InRange 0 (some 0) place ↔ False := by simp [InRange]
          simp only [hnone]
          simp [slice]
        | succ n =>
          have hsucc : ∀ place, InRange 0 (some (n + 1)) (place + 1) ↔
              InRange 0 (some n) place := by
            simp [InRange]
          have hzero : InRange 0 (some (n + 1)) 0 := by simp [InRange]
          simp only [if_pos hzero, hsucc]
          rw [← ih]
          rfl

/-- A count that is left out is as good as one that no list is longer than. -/
theorem slice_getD {bound : ℕ} (hlength : items.length ≤ bound) (offset : ℕ) (count : Option ℕ) :
    slice offset count items = slice offset (some (count.getD bound)) items := by
  cases count with
  | some n => rfl
  | none =>
    have hrest : (items.drop offset).length ≤ bound := by
      rw [List.length_drop]
      omega
    exact (List.take_of_length_le hrest).symm

/-- A slice of a slice. -/
theorem slice_slice {bound : ℕ} (hlength : items.length ≤ bound) (o₁ o₂ : ℕ)
    (c₁ c₂ : Option ℕ) :
    slice o₂ c₂ (slice o₁ c₁ items) =
      slice (o₁ + o₂) (some (min (c₁.getD bound - o₂) (c₂.getD bound))) items := by
  have hslice : (slice o₁ c₁ items).length ≤ bound :=
    Nat.le_trans (length_slice_le items o₁ c₁) hlength
  rw [slice_getD _ hslice, slice_getD items hlength o₁]
  simp only [slice, List.drop_take, List.drop_drop, List.take_take]
  rw [Nat.min_comm]

/-- The pages up to some place. -/
theorem take_mul_eq_flatMap (n pages : ℕ) :
    items.take (pages * n) = (List.range pages).flatMap fun i => slice (i * n) (some n) items := by
  induction pages with
  | zero => simp
  | succ pages ih =>
    rw [Nat.succ_mul, List.take_add, ih, List.range_succ, List.flatMap_append]
    simp [slice]

/-- The pages of a list, one behind the other, are the list. -/
theorem flatMap_slice {n : ℕ} (hn : 0 < n) :
    (List.range ((items.length + n - 1) / n)).flatMap (fun i => slice (i * n) (some n) items) =
      items := by
  have hpages : items.length + n - 1 < n * ((items.length + n - 1) / n + 1) :=
    Nat.lt_mul_div_succ _ hn
  rw [Nat.mul_succ, Nat.mul_comm] at hpages
  rw [← take_mul_eq_flatMap]
  exact List.take_of_length_le (by omega)

/-- A page starts at a place of the list. -/
theorem mul_lt_length {n i : ℕ} (hi : i < (items.length + n - 1) / n) : i * n < items.length := by
  have hn : 0 < n := Nat.pos_of_ne_zero (by rintro rfl; simp at hi)
  have hle := Nat.div_mul_le_self (items.length + n - 1) n
  have hmul : (i + 1) * n ≤ (items.length + n - 1) / n * n := Nat.mul_le_mul_right n hi
  rw [Nat.succ_mul] at hmul
  omega

end

/-! ### Entities with more limits -/

/-- The entity with more modifiers behind its own. -/
def Entity.limited (entity : Entity) (limits : List Modifier) : Entity :=
  { entity with modifiers := entity.modifiers ++ limits }

namespace Evaluator

variable {ev : Evaluator} {root : Root} {entity : Entity} {limits : List Modifier} {α : Type}
  {wrap : List α → Value} {items : List α}

/-- In every run the limits cut the value that is in front of them in one. -/
theorem result_limited (hq : Query.DrawsNothing [entity])
    (hlimits : ∀ m ∈ limits, m.reorders = false) (hwrap : Value.Wraps wrap)
    (h : (ev.upTo root (entity.limited limits) entity.modifiers).Yields (some (wrap items)))
    (g : Generator) :
    (ev.answer root (entity.limited limits) g).result = .ok (wrap (slices limits items)) := by
  obtain ⟨hm, hc⟩ := Query.forall_preorder_of_mem hq (List.mem_singleton_self entity)
  have hc' : ∀ children ∈ (entity.limited limits).children, Query.DrawsNothing children := hc
  obtain ⟨g', hv⟩ := h
  rw [result_answer hc' hm rfl hv g]
  exact runModifiers_wrap ev.accessor entity.aliasName hlimits hwrap items g

/-- If the sources have the same for the entity with and without the limits, the value in front of
them is what the entity without them gives. -/
theorem yields_upTo_limited_iff
    (hgiven : ev.given root (entity.limited limits) = ev.given root entity) {v : Value}
    (hv : v ≠ .null) :
    (ev.upTo root (entity.limited limits) entity.modifiers).Yields (some v) ↔
      (ev.answer root entity).Yields v := by
  rw [upTo_congr hgiven rfl rfl]
  exact exists_congr fun g => upTo_modifiers_eq_ok_iff hv

end Evaluator

/-- More limits can be written behind what a text says. -/
theorem parse_limited {text : String} {entity : Entity} (h : parse text = .ok [entity])
    {limits : List Modifier} (hlimits : ∀ m ∈ limits, m.WellFormed) :
    parse (Query.render [entity.limited limits]) = .ok [entity.limited limits] := by
  obtain ⟨-, hall⟩ := wellFormed_of_parse h
  obtain ⟨⟨⟨⟨hpath, halias, hmodifiers⟩, hchildren⟩, hbelow⟩, -⟩ :=
    Query.forall_preorder_cons.1 hall
  have hheading : (entity.limited limits).HeadingWellFormed :=
    ⟨hpath, halias, List.forall_mem_append.2 ⟨hmodifiers, hlimits⟩⟩
  have hseparable : Query.Separable [entity.limited limits] := ⟨by simp [Query.aliases], by simp⟩
  exact parse_of_wellFormed ⟨hseparable, Query.forall_preorder_cons.2
    ⟨⟨⟨hheading, hchildren⟩, hbelow⟩, by simp [Query.preorder]⟩⟩

/-- **Paging loses and repeats nothing.** Let the value of an entity in front of its last limits be
an array or object that is no longer than the greatest number that can be written. It is what the
entity without these limits gives, unless a source looks at the modifiers. A limit keeps what is at
the places from its offset on and less than its count behind that, in order and as it is, entries
with their keys. The pages of any size, one behind the other, are the value, and their limits can
be written if the size can. Two limits are a single one: it starts at the sum of the offsets, and
its count is the second one or what the second offset leaves of the first one. Nothing here wraps
around, and the limits can be written behind any text that says the entity. -/
theorem answer_limited (ev : Evaluator) (root : Root) {entity : Entity}
    (hq : Query.DrawsNothing [entity]) {α : Type} {wrap : List α → Value}
    (hwrap : Value.Wraps wrap) {items : List α} (hlength : items.length ≤ wordSize - 1) :
    let whole (limits : List Modifier) : Prop :=
      (ev.upTo root (entity.limited limits) entity.modifiers).Yields (some (wrap items))
    let result (limits : List Modifier) (g : Generator) :=
      (ev.answer root (entity.limited limits) g).result
    let pageCount (n : ℕ) := (items.length + n - 1) / n
    (∀ limits, ev.given root (entity.limited limits) = ev.given root entity →
      (whole limits ↔ (ev.answer root entity).Yields (wrap items))) ∧
    (∀ offset count, whole [.limit offset count] → ∀ g,
      result [.limit offset count] g =
        .ok (wrap (((List.finRange items.length).filter fun i : Fin items.length =>
          InRange offset count i).map items.get))) ∧
    (∀ n, 0 < n → (∀ i < pageCount n, whole [.limit (i * n) (some n)]) →
      ∃ pages : List (List α), pages.length = pageCount n ∧
        (∀ (i : Fin pages.length) g,
          result [.limit (i * n) (some n)] g = .ok (wrap (pages.get i))) ∧
        pages.flatten = items ∧
        (n < wordSize → ∀ i : Fin pages.length, (Modifier.limit (i * n) (some n)).WellFormed)) ∧
    (∀ o₁ c₁ o₂ c₂, whole [.limit o₁ c₁, .limit o₂ c₂] →
      let offset := o₁ + o₂
      let count := min (c₁.getD (wordSize - 1) - o₂) (c₂.getD (wordSize - 1))
      (∀ g, result [.limit o₁ c₁, .limit o₂ c₂] g =
        .ok (wrap (slice offset (some count) items))) ∧
      (whole [.limit offset (some count)] → ∀ g g',
        result [.limit o₁ c₁, .limit o₂ c₂] g = result [.limit offset (some count)] g')) ∧
    (∀ text, parse text = .ok [entity] → ∀ limits, (∀ m ∈ limits, m.WellFormed) →
      ∃ text', parse text' = .ok [entity.limited limits]) := by
  intro whole result pageCount
  have hcut : ∀ limits, (∀ m ∈ limits, m.reorders = false) → whole limits → ∀ g,
      result limits g = .ok (wrap (slices limits items)) :=
    fun limits hlimits h => Evaluator.result_limited hq hlimits hwrap h
  have hone : ∀ offset count, whole [.limit offset count] → ∀ g,
      result [.limit offset count] g = .ok (wrap (slice offset count items)) :=
    fun offset count => hcut _ (by simp [Modifier.reorders])
  have hnull : wrap items ≠ .null := by
    cases hwrap <;> exact Value.noConfusion
  refine ⟨fun limits hgiven => Evaluator.yields_upTo_limited_iff hgiven hnull, ?_, ?_, ?_, ?_⟩
  · intro offset count h g
    rw [hone offset count h, slice_eq_filter]
  · intro n hn h
    let page (i : ℕ) := slice (i * n) (some n) items
    have hplace : ∀ i : Fin ((List.range (pageCount n)).map page).length, i < pageCount n :=
      fun i => by simpa using i.isLt
    refine ⟨(List.range (pageCount n)).map page, by simp, fun i g => ?_, ?_, fun hword i => ?_⟩
    · rw [hone _ _ (h i (hplace i))]
      simp [page]
    · rw [← List.flatMap_def]
      exact flatMap_slice items hn
    · have hoffset := mul_lt_length items (hplace i)
      exact ⟨by omega, fun m hm => by rwa [← Option.some.inj hm]⟩
  · intro o₁ c₁ o₂ c₂ h offset count
    have htwo : ∀ g, result [.limit o₁ c₁, .limit o₂ c₂] g =
        .ok (wrap (slice offset (some count) items)) := by
      intro g
      rw [hcut _ (by simp [Modifier.reorders]) h]
      exact congrArg (Except.ok <| wrap ·) (slice_slice items hlength o₁ o₂ c₁ c₂)
    exact ⟨htwo, fun hsingle g g' => (htwo g).trans (hone _ _ hsingle g').symm⟩
  · exact fun text htext limits hlimits => ⟨_, parse_limited htext hlimits⟩

/-- The entries of an object by twos. -/
theorem answer_limited_entries :
    let entries : Entries Value := [("a", .integer 1), ("b", .integer 2), ("c", .integer 3)]
    let entity : Entity := ⟨"x", "x", none, none, []⟩
    let root : Root := .value (.object [("x", .object entries)])
    let result (limits : List Modifier) :=
      (Evaluator.answer {} root (entity.limited limits) ⟨0⟩).result
    (∃ pages : List (Entries Value), pages.length = 2 ∧
      (∀ i : Fin pages.length, result [.limit (i * 2) (some 2)] = .ok (.object (pages.get i))) ∧
      pages.flatten = entries) ∧
    result [.limit 1 none, .limit 1 (some 5)] = .ok (.object (slice 2 (some 5) entries)) := by
  intro entries entity root result
  obtain ⟨hwhole, -, hpages, htwo, -⟩ := answer_limited {} root
    (by decide : Query.DrawsNothing [entity]) .object
    (by decide : entries.length ≤ wordSize - 1)
  have hgiven : ∀ limits, Evaluator.given {} root (entity.limited limits) =
      Evaluator.given {} root entity := fun limits => rfl
  have hanswer : (Evaluator.answer {} root entity).Yields (.object entries) := ⟨⟨0⟩, rfl⟩
  have h := fun limits => (hwhole limits (hgiven limits)).2 hanswer
  obtain ⟨pages, hlength, hpage, hflatten, -⟩ := hpages 2 (by decide) fun i _ => h _
  obtain ⟨hsingle, -⟩ := htwo 1 none 1 (some 5) (h _)
  exact ⟨⟨pages, hlength.trans (by decide), fun i => hpage i ⟨0⟩, hflatten⟩, hsingle ⟨0⟩⟩

example :
    let entries : Entries Value := [("a", .integer 1), ("b", .integer 2), ("c", .integer 3)]
    (Evaluator.apply {} [⟨"x", "x", none, none, [.limit 2 (some 2)]⟩]
      (.value (.object [("x", .object entries)])) ⟨0⟩).result =
        .ok (some [("x", .object [("c", .integer 3)])]) := by
  cbv

end NestedQuery
