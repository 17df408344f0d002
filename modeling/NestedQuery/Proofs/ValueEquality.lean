/-
# Equality of values

Two values are equal if they match in one layer and the values in it are equal
(`equals_iff_matches`). A layer with a handle matches by the handle, numbers
match as numbers do, arrays place by place, and objects key by key, wherever
in the other object the key is. So what holds of one layer carries over to
values by induction over their parts (`Throughout`).

Equality of objects is asked of the entries of one side only. It is symmetric
since keys are distinct: as many keys, all found on the other side, are all the
keys there (`Entries.keys_perm`). A value equals itself, in whatever order the
entries of its objects are, exactly if there is no float in it that is not a
number (`Value.equals_iff_of_reordered`).

Key definitions: `Value.parts`, `Value.Throughout`, `Value.WellKeyed`,
`Value.NaNFree`, `Value.Matches`, `Value.Reordered`.
Key theorems: `Value.equals_iff_matches`, `Value.equals_symm`,
`Value.equals_trans`, `Value.equals_iff_of_reordered`,
`Value.order_eq_of_equals`, `Value.equals_partial_equivalence`.
-/
import NestedQuery.Proofs.ValueOrder

namespace NestedQuery

/-! ### Numbers and points in time -/

/-- Numbers are equal if they are in the same place. -/
theorem Binary64.equals_iff {x y : Binary64} :
    x.equals y = true ↔ x ≠ nan ∧ y ≠ nan ∧ x.place = y.place := by
  constructor
  · intro h
    have hcompare : compare? x y = some .eq := by simpa [equals] using h
    have hx : x ≠ nan := by
      rintro rfl
      cases hcompare
    have hy : y ≠ nan := by
      rintro rfl
      cases x <;> cases hcompare
    have horder : x.order y = .eq := by rw [order, hcompare, Option.getD_some]
    refine ⟨hx, hy, le_antisymm ((order_isLE hx hy).1 ?_) ((order_isLE hy hx).1 ?_)⟩
    · rw [horder]
      rfl
    · rw [order_swap, horder]
      rfl
  · rintro ⟨hx, hy, hplace⟩
    have hle : (x.order y).isLE := (order_isLE hx hy).2 hplace.le
    have hge : (x.order y).swap.isLE := order_swap x y ▸ (order_isLE hy hx).2 hplace.ge
    have horder : x.order y = .eq := Ordering.eq_eq_of_isLE_of_isLE_swap hle hge
    obtain ⟨o, ho⟩ : ∃ o, compare? x y = some o := by
      cases x <;> cases y <;> first | exact ⟨_, rfl⟩ | contradiction
    rw [order, ho, Option.getD_some] at horder
    rw [equals, ho, horder]
    rfl

theorem DateTime.order_eq_iff {s t : DateTime} :
    s.order t = .eq ↔ s.seconds = t.seconds ∧ s.nanos = t.nanos := by
  rw [order, Ordering.then_eq_eq, compare_eq_iff_eq, compare_eq_iff_eq]

/-! ### Keys -/

namespace Entries

variable {α : Type} {as bs cs : Entries α}

/-- Every entry is found among the others, under its key and with a value that is related. -/
def Found (R : α → α → Prop) (as bs : Entries α) : Prop :=
  ∀ e ∈ as, ∃ v, bs.get? e.1 = some v ∧ R e.2 v

theorem found_cons {R : α → α → Prop} {e : String × α} :
    Found R (e :: as) bs ↔ (∃ v, bs.get? e.1 = some v ∧ R e.2 v) ∧ Found R as bs :=
  List.forall_mem_cons

/-- Distinct keys that are all found among as many others are the keys of these. -/
theorem keys_perm {R : α → α → Prop} (hd : as.keys.Nodup) (hl : as.length = bs.length)
    (h : Found R as bs) : as.keys.Perm bs.keys := by
  have hsubset : as.keys ⊆ bs.keys := by
    intro key hkey
    obtain ⟨e, he, rfl⟩ := List.mem_map.1 hkey
    obtain ⟨v, hv, -⟩ := h e he
    exact mem_keys (mem_of_get? hv)
  refine (List.subperm_of_subset hd hsubset).perm_of_length_le ?_
  rw [length_keys, length_keys, hl]

/-- The entries on the other side are found as well. -/
theorem Found.symm {R S : α → α → Prop} (hd : as.keys.Nodup) (hl : as.length = bs.length)
    (hRS : ∀ e ∈ as, ∀ w, R e.2 w → S w e.2) (h : Found R as bs) : Found S bs as := by
  have hperm := keys_perm hd hl h
  rintro ⟨key, w⟩ he
  obtain ⟨⟨_, v⟩, hv, rfl⟩ := List.mem_map.1 (hperm.mem_iff.2 (mem_keys he))
  obtain ⟨w', hw', hR⟩ := h _ hv
  have hw : bs.get? _ = some w := get?_of_mem (hperm.nodup_iff.1 hd) he
  obtain rfl : w' = w := Option.some.inj (hw'.symm.trans hw)
  exact ⟨v, get?_of_mem hd hv, hRS _ hv _ hR⟩

theorem Found.trans {R S T : α → α → Prop} (hRST : ∀ e ∈ as, ∀ v w, R e.2 v → S v w → T e.2 w)
    (hab : Found R as bs) (hbc : Found S bs cs) : Found T as cs := by
  intro e he
  obtain ⟨v, hv, hR⟩ := hab e he
  obtain ⟨w, hw, hS⟩ := hbc _ (mem_of_get? hv)
  exact ⟨w, hw, hRST e he v w hR hS⟩

/-- To find entries among some with the same keys in another order is to compare them with these
before they are put in that order. -/
theorem found_iff_of_perm {R : α → α → Prop} (hd : as.keys.Nodup) (hk : as.keys = bs.keys)
    (hp : bs.Perm cs) : Found R as cs ↔ List.Forall₂ (fun e e' => R e.2 e'.2) as bs := by
  have hbs : bs.keys.Nodup := hk ▸ hd
  have hcs : cs.keys.Nodup := (hp.map Prod.fst).nodup_iff.1 hbs
  have hlength : as.length = bs.length := by rw [← length_keys, hk, length_keys]
  have hget : ∀ i (_ : i < as.length) (_ : i < bs.length),
      cs.get? as[i].1 = some bs[i].2 := by
    intro i hi hi'
    have hkey : as[i].1 = bs[i].1 := by
      simpa [keys] using List.getElem_of_eq hk (i := i) (by rwa [length_keys])
    rw [hkey]
    exact get?_of_mem hcs (hp.mem_iff.1 (List.getElem_mem hi'))
  rw [List.forall₂_iff_get]
  constructor
  · intro h
    refine ⟨hlength, fun i hi hi' => ?_⟩
    obtain ⟨v, hv, hR⟩ := h _ (List.getElem_mem hi)
    rw [hget i hi hi'] at hv
    cases hv
    exact hR
  · rintro ⟨-, h⟩ e he
    obtain ⟨i, hi, rfl⟩ := List.mem_iff_getElem.1 he
    have hi' := hlength ▸ hi
    exact ⟨_, hget i hi hi', h i hi hi'⟩

end Entries

/-- Relations place by place are composed place by place. -/
theorem forall₂_trans {α β γ : Type} {R : α → β → Prop} {S : β → γ → Prop} {T : α → γ → Prop}
    {as : List α} {bs : List β} {cs : List γ} (h : ∀ a ∈ as, ∀ b c, R a b → S b c → T a c)
    (hab : List.Forall₂ R as bs) (hbc : List.Forall₂ S bs cs) : List.Forall₂ T as cs := by
  induction hab generalizing cs with
  | nil =>
    cases hbc
    exact .nil
  | cons hR _ ih =>
    obtain ⟨hfirst, hothers⟩ := List.forall_mem_cons.1 h
    cases hbc with
    | cons hS hbc => exact .cons (hfirst _ _ hR hS) (ih hothers hbc)

/-- A relation that says at each place something of the left side only. -/
theorem forall₂_iff_forall {α β : Type} {R : α → β → Prop} {P : α → Prop} {as : List α}
    {bs : List β} (hl : as.length = bs.length)
    (h : ∀ i (_ : i < as.length) (_ : i < bs.length), R as[i] bs[i] ↔ P as[i]) :
    List.Forall₂ R as bs ↔ ∀ a ∈ as, P a := by
  rw [List.forall₂_iff_get]
  constructor
  · rintro ⟨-, hR⟩ a ha
    obtain ⟨i, hi, rfl⟩ := List.mem_iff_getElem.1 ha
    have hi' := hl ▸ hi
    exact (h i hi hi').1 (hR i hi hi')
  · exact fun hP => ⟨hl, fun i hi hi' => (h i hi hi').2 (hP _ (List.getElem_mem hi))⟩

namespace Value

/-! ### Values and their parts -/

/-- The values in an array or an object. What has a handle is told apart by it alone: the values
that it holds or computes are no parts of it. -/
def parts : Value → List Value
  | array items => items
  | object entries => entries.map Prod.snd
  | _ => []

/-- The property holds of the value and of its parts at any depth. -/
inductive Throughout (P : Value → Prop) : Value → Prop
  | mk {v : Value} (here : P v) (inside : ∀ w ∈ v.parts, Throughout P w) : Throughout P v

section Throughout

variable {P : Value → Prop}

theorem throughout_iff {v : Value} :
    Throughout P v ↔ P v ∧ ∀ w ∈ v.parts, Throughout P w := by
  constructor
  · rintro ⟨here, inside⟩
    exact ⟨here, inside⟩
  · rintro ⟨here, inside⟩
    exact .mk here inside

theorem throughout_of_leaf {v : Value} (h : v.parts = []) : Throughout P v ↔ P v := by
  rw [throughout_iff, h, and_iff_left (List.forall_mem_nil _)]

theorem throughout_array {items : List Value} :
    Throughout P (array items) ↔ P (array items) ∧ ∀ v ∈ items, Throughout P v :=
  throughout_iff

theorem throughout_object {entries : Entries Value} :
    Throughout P (object entries) ↔ P (object entries) ∧ ∀ e ∈ entries, Throughout P e.2 := by
  rw [throughout_iff, parts, List.forall_mem_map]

mutual

/-- What holds of all values holds throughout: values are well-founded by their parts. -/
theorem throughout_of_forall (h : ∀ v, P v) : ∀ v, Throughout P v
  | array items => .mk (h _) (throughout_items h items)
  | object entries => .mk (h _) (throughout_entries h entries)
  | null | boolean _ | integer _ | float _ | string _ | dateTime _ | record _ _ _ | deferred _ _
  | collection _ _ => .mk (h _) (List.forall_mem_nil _)

theorem throughout_items (h : ∀ v, P v) :
    ∀ items : List Value, ∀ v ∈ items, Throughout P v
  | [] => List.forall_mem_nil _
  | v :: items => List.forall_mem_cons.2 ⟨throughout_of_forall h v, throughout_items h items⟩

theorem throughout_entries (h : ∀ v, P v) :
    ∀ entries : List (String × Value), ∀ v ∈ entries.map Prod.snd, Throughout P v
  | [] => List.forall_mem_nil _
  | (_, v) :: entries =>
    List.forall_mem_cons.2 ⟨throughout_of_forall h v, throughout_entries h entries⟩

end

end Throughout

/-- No key of an object occurs twice. -/
def KeysDistinct : Value → Prop
  | object entries => (Entries.keys entries).Nodup
  | _ => True

/-- No key of an object in the value occurs twice. -/
def WellKeyed : Value → Prop := Throughout KeysDistinct

/-- Every float in the value is a number. -/
def NaNFree : Value → Prop := Throughout (· ≠ float .nan)

/-- Objects that are built entry by entry have distinct keys. -/
theorem wellKeyed_ofPairs {pairs : List (String × Value)} (h : ∀ p ∈ pairs, p.2.WellKeyed) :
    (ofPairs pairs).WellKeyed :=
  throughout_object.2 ⟨Entries.nodup_keys_ofPairs pairs, fun e he =>
    h e (Entries.mem_of_mem_ofPairs he)⟩

/-! ### Equality layer by layer -/

/-- Values of one kind that are the same up to the relation between their parts. -/
inductive Matches (R : Value → Value → Prop) : Value → Value → Prop
  | null : Matches R null null
  | boolean (b : Bool) : Matches R (boolean b) (boolean b)
  | integer (n : Int64) : Matches R (integer n) (integer n)
  | float {x y : Binary64} (h : x.equals y = true) : Matches R (float x) (float y)
  | string (s : String) : Matches R (string s) (string s)
  | array {as bs : List Value} (h : List.Forall₂ R as bs) : Matches R (array as) (array bs)
  | object {as bs : Entries Value} (hl : as.length = bs.length) (h : Entries.Found R as bs) :
      Matches R (object as) (object bs)
  | dateTime {s t : DateTime} (h : s.order t = .eq) : Matches R (dateTime s) (dateTime t)
  | record {handle : Nat} {type type' : String} {as bs : List (String × Value)} :
      Matches R (record handle type as) (record handle type' bs)
  | deferred {handle : Nat} {f g : Entity → Accessor → Except EvalError Value} :
      Matches R (deferred handle f) (deferred handle g)
  | collection {handle : Nat} {o o' : Except EvalError (List Value)} :
      Matches R (collection handle o) (collection handle o')

variable {a b c : Value}

theorem itemsEqual_iff {as bs : List Value} :
    itemsEqual as bs = true ↔ List.Forall₂ (fun a b => a.equals b = true) as bs := by
  induction as generalizing bs with
  | nil => cases bs <;> simp [itemsEqual]
  | cons a as ih => cases bs <;> simp [itemsEqual, ih]

theorem entriesWithin_iff {as bs : Entries Value} :
    entriesWithin as bs = true ↔ Entries.Found (fun a b => a.equals b = true) as bs := by
  induction as with
  | nil => simp [entriesWithin, Entries.Found]
  | cons e as ih =>
    obtain ⟨key, a⟩ := e
    rw [entriesWithin, Bool.and_eq_true, ih, Entries.found_cons]
    refine and_congr_left fun _ => ?_
    cases bs.get? key <;> simp

theorem equals_array {as bs : List Value} :
    (array as).equals (array bs) = true ↔ List.Forall₂ (fun a b => a.equals b = true) as bs := by
  rw [equals, itemsEqual_iff]

theorem equals_object {as bs : Entries Value} :
    (object as).equals (object bs) = true ↔
      as.length = bs.length ∧ Entries.Found (fun a b => a.equals b = true) as bs := by
  rw [equals, Bool.and_eq_true, beq_iff_eq, entriesWithin_iff]

/-- Equal values are those that match in a layer and are equal in their parts. -/
theorem equals_iff_matches :
    a.equals b = true ↔ Matches (fun a b => a.equals b = true) a b := by
  constructor
  · intro h
    unfold equals at h
    split at h
    · exact .null
    · exact eq_of_beq h ▸ .boolean _
    · exact eq_of_beq h ▸ .integer _
    · exact .float h
    · exact eq_of_beq h ▸ .string _
    · exact .array (itemsEqual_iff.1 h)
    · obtain ⟨hl, hfound⟩ := equals_object.1 h
      exact .object hl hfound
    · exact .dateTime (eq_of_beq h)
    · exact eq_of_beq h ▸ .record
    · exact eq_of_beq h ▸ .deferred
    · exact eq_of_beq h ▸ .collection
    · cases h
  · intro h
    cases h with
    | null => rfl
    | array h => exact equals_array.2 h
    | object hl h => exact equals_object.2 ⟨hl, h⟩
    | float h => exact h
    | dateTime h => exact beq_iff_eq.2 h
    | _ => exact beq_self_eq_true _

/-! ### Symmetry and transitivity -/

theorem mem_parts_of_entry {entries : Entries Value} {e : String × Value} (h : e ∈ entries) :
    e.2 ∈ (object entries).parts := List.mem_map_of_mem h

/-- One layer is symmetric if its parts are. -/
theorem Matches.symm {R S : Value → Value → Prop} (ha : a.KeysDistinct)
    (hRS : ∀ v ∈ a.parts, ∀ w, R v w → S w v) (h : Matches R a b) : Matches S b a := by
  cases h with
  | null => exact .null
  | boolean b => exact .boolean b
  | integer n => exact .integer n
  | float h => exact .float (Binary64.equals_comm _ _ ▸ h)
  | string s => exact .string s
  | array h =>
    have hflip := ((List.forall₂_and_left _ _).2 ⟨hRS, h⟩).imp fun v w h => h.1 w h.2
    exact .array hflip.flip
  | object hl h => exact .object hl.symm (h.symm ha hl fun e he => hRS _ (mem_parts_of_entry he))
  | dateTime h =>
    obtain ⟨hs, hn⟩ := DateTime.order_eq_iff.1 h
    exact .dateTime (DateTime.order_eq_iff.2 ⟨hs.symm, hn.symm⟩)
  | record => exact .record
  | deferred => exact .deferred
  | collection => exact .collection

/-- One layer is transitive if its parts are. -/
theorem Matches.trans {R S T : Value → Value → Prop}
    (hRST : ∀ v ∈ a.parts, ∀ w u, R v w → S w u → T v u) (hab : Matches R a b)
    (hbc : Matches S b c) : Matches T a c := by
  cases hab with
  | null =>
    cases hbc
    exact .null
  | boolean b =>
    cases hbc
    exact .boolean b
  | integer n =>
    cases hbc
    exact .integer n
  | float h =>
    cases hbc with
    | float h' =>
      obtain ⟨hx, -, hxy⟩ := Binary64.equals_iff.1 h
      obtain ⟨-, hz, hyz⟩ := Binary64.equals_iff.1 h'
      exact .float (Binary64.equals_iff.2 ⟨hx, hz, hxy.trans hyz⟩)
  | string s =>
    cases hbc
    exact .string s
  | array h =>
    cases hbc with
    | array h' => exact .array (forall₂_trans hRST h h')
  | object hl h =>
    cases hbc with
    | object hl' h' =>
      exact .object (hl.trans hl') (h.trans (fun e he => hRST _ (mem_parts_of_entry he)) h')
  | dateTime h =>
    cases hbc with
    | dateTime h' =>
      obtain ⟨hs, hn⟩ := DateTime.order_eq_iff.1 h
      obtain ⟨hs', hn'⟩ := DateTime.order_eq_iff.1 h'
      exact .dateTime (DateTime.order_eq_iff.2 ⟨hs.trans hs', hn.trans hn'⟩)
  | record =>
    cases hbc
    exact .record
  | deferred =>
    cases hbc
    exact .deferred
  | collection =>
    cases hbc
    exact .collection

/-- Equality is symmetric for values whose keys are distinct. -/
theorem equals_symm (ha : a.WellKeyed) (h : a.equals b = true) : b.equals a = true := by
  induction ha generalizing b with
  | mk here inside ih =>
    exact equals_iff_matches.2 ((equals_iff_matches.1 h).symm here fun v hv _ => ih v hv)

/-- Equality is transitive. -/
theorem equals_trans (hab : a.equals b = true) (hbc : b.equals c = true) : a.equals c = true := by
  have hall : Throughout (fun _ => True) a := throughout_of_forall (fun _ => trivial) a
  induction hall generalizing b c with
  | mk _ _ ih =>
    rw [equals_iff_matches] at hab hbc ⊢
    exact hab.trans (fun v hv w u hvw (hwu : w.equals u = true) => ih v hv hvw hwu) hbc

/-! ### Reflexivity, whatever the order of entries -/

/-- The same value, with the entries of its objects in any order at every depth: `es` are the
entries of an object with their values rearranged, and these are put in another order. -/
inductive Reordered : Value → Value → Prop
  | leaf {v : Value} (h : v.parts = []) : Reordered v v
  | array {as bs : List Value} (hl : as.length = bs.length)
      (h : ∀ i (_ : i < as.length) (_ : i < bs.length), Reordered as[i] bs[i]) :
      Reordered (array as) (array bs)
  | object {as es bs : Entries Value} (hk : as.keys = es.keys)
      (h : ∀ i (_ : i < as.length) (_ : i < es.length), Reordered as[i].2 es[i].2)
      (hp : es.Perm bs) : Reordered (object as) (object bs)

/-- Every value is a rearrangement of itself. -/
theorem Reordered.refl (v : Value) : Reordered v v := by
  have hall : Throughout (fun _ => True) v := throughout_of_forall (fun _ => trivial) v
  induction hall with
  | @mk v _ _ ih =>
    cases v with
    | array items => exact .array rfl fun i hi _ => ih _ (List.getElem_mem hi)
    | object entries =>
      exact .object rfl (fun i hi _ => ih _ (mem_parts_of_entry (List.getElem_mem hi))) (.refl _)
    | _ => exact .leaf rfl

/-- The entries of an object in another order. -/
theorem Reordered.of_perm {as bs : Entries Value} (hp : as.Perm bs) :
    Reordered (.object as) (.object bs) := .object rfl (fun _ _ _ => .refl _) hp

theorem equals_self_of_leaf (h : a.parts = []) : a.equals a = true ↔ a ≠ float .nan := by
  cases a with
  | float x =>
    rw [equals, Binary64.equals_iff]
    simp
  | array items =>
    obtain rfl : items = [] := h
    exact iff_of_true rfl nofun
  | object entries =>
    obtain rfl : entries = [] := List.map_eq_nil_iff.1 h
    exact iff_of_true rfl nofun
  | null => exact iff_of_true rfl nofun
  | dateTime t =>
    exact iff_of_true (equals_iff_matches.2 (.dateTime (DateTime.order_eq_iff.2 ⟨rfl, rfl⟩))) nofun
  | _ => exact iff_of_true (beq_self_eq_true _) nofun

/-- A value equals its rearrangements unless there is a float in it that is not a number. -/
theorem equals_iff_of_reordered (h : Reordered a b) (ha : a.WellKeyed) :
    a.equals b = true ↔ a.NaNFree := by
  induction h with
  | leaf h => rw [equals_self_of_leaf h, NaNFree, throughout_of_leaf h]
  | @array as bs hl h ih =>
    have hparts := (throughout_array.1 ha).2
    rw [equals_array, NaNFree, throughout_array, and_iff_right nofun]
    exact forall₂_iff_forall hl fun i hi hi' => ih i hi hi' (hparts _ (List.getElem_mem hi))
  | @object as es bs hk h hp ih =>
    obtain ⟨hkeys, hparts⟩ := throughout_object.1 ha
    have hlength : as.length = es.length := by
      rw [← Entries.length_keys, hk, Entries.length_keys]
    rw [equals_object, NaNFree, throughout_object, and_iff_right (hlength.trans hp.length_eq),
      and_iff_right nofun, Entries.found_iff_of_perm hkeys hk hp]
    exact forall₂_iff_forall hlength fun i hi hi' => ih i hi hi' (hparts _ (List.getElem_mem hi))

/-! ### The order of equal values -/

/-- Equal values tie. -/
theorem order_eq_of_equals (h : a.equals b = true) : a.order b = .eq := by
  cases equals_iff_matches.1 h with
  | float h =>
    have hcompare := eq_of_beq h
    rw [order, Binary64.order, hcompare, Option.getD_some]
  | dateTime h' => exact h'
  | array | object | record | deferred | collection => rfl
  | _ => exact order_self _

/-- **Equality is a partial equivalence that the order respects.** It is symmetric for values whose
keys are distinct, and transitive. Such a value equals itself, also with the entries of its objects
in any other order at every depth, exactly if no float in its arrays and objects is the one that is
not a number. Equal values tie in the order of values. -/
theorem equals_partial_equivalence :
    (∀ a b : Value, a.WellKeyed → a.equals b = true → b.equals a = true) ∧
    (∀ a b c : Value, a.equals b = true → b.equals c = true → a.equals c = true) ∧
    (∀ a : Value, a.WellKeyed → (a.equals a = true ↔ a.NaNFree)) ∧
    (∀ a b : Value, a.WellKeyed → a.Reordered b → (a.equals b = true ↔ a.NaNFree)) ∧
    ∀ a b : Value, a.equals b = true → a.order b = .eq :=
  ⟨fun _ _ => equals_symm, fun _ _ _ => equals_trans,
    fun a ha => equals_iff_of_reordered (.refl a) ha,
    fun _ _ ha h => equals_iff_of_reordered h ha, fun _ _ => order_eq_of_equals⟩

/-- Rows whose entries are in different orders, and one with what is not a number. -/
theorem equals_partial_equivalence_rows :
    let row := ofPairs [("x", null), ("y", float one)]
    let turned := ofPairs [("y", float one), ("x", null)]
    let odd := array [float .nan]
    ((array [row]).equals (array [turned]) = true ∧ (array [turned]).equals (array [row]) = true) ∧
      (array [row]).equals (array [row]) = true ∧
      (array [row]).order (array [turned]) = .eq ∧ ¬ odd.equals odd = true := by
  intro row turned odd
  obtain ⟨hsymm, htrans, hself, hreordered, horder⟩ := equals_partial_equivalence
  have hscalars : ∀ {P : Value → Prop}, P null → P (float one) →
      ∀ p ∈ [("x", null), ("y", float one)], Throughout P p.2 := fun hnull hone =>
    List.forall_mem_cons.2 ⟨(throughout_of_leaf rfl).2 hnull,
      List.forall_mem_singleton.2 ((throughout_of_leaf rfl).2 hone)⟩
  have hkeys : (array [row]).WellKeyed := by
    refine throughout_array.2 ⟨trivial, List.forall_mem_singleton.2 ?_⟩
    exact wellKeyed_ofPairs (hscalars trivial trivial)
  have hnumbers : (array [row]).NaNFree := by
    refine throughout_array.2 ⟨nofun, List.forall_mem_singleton.2 ?_⟩
    have hone : float one ≠ float .nan := fun h => absurd (float.inj h) (by decide)
    exact throughout_object.2 ⟨nofun, hscalars nofun hone⟩
  have hturned : (array [row]).Reordered (array [turned]) := by
    refine .array rfl fun i hi _ => ?_
    obtain rfl : i = 0 := by simpa using hi
    exact .of_perm (.swap _ _ _)
  have hodd : odd.WellKeyed := by
    refine throughout_array.2 ⟨trivial, List.forall_mem_singleton.2 ?_⟩
    exact (throughout_of_leaf rfl).2 trivial
  have hequal := (hreordered _ _ hkeys hturned).2 hnumbers
  have hback := hsymm _ _ hkeys hequal
  refine ⟨⟨hequal, hback⟩, htrans _ _ _ hequal hback, horder _ _ hequal, fun h => ?_⟩
  obtain ⟨-, hitems⟩ := throughout_array.1 ((hself odd hodd).1 h)
  exact (throughout_of_leaf rfl).1 (hitems _ List.mem_cons_self) rfl

end Value
end NestedQuery
