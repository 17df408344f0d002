/-
# Plain values

The values of JSON are plain: they hold no records, no deferred values and no
collections, and their numbers are those of the document. A plain value is
read without failing, what is read from it is plain, and it becomes JSON.

Key definitions: `Json.OccursIn`, `Json.numbers`, `Value.Plain`,
`Selection.Plain`.
Key theorems: `Value.plain_ofJson`, `Value.Plain.read`,
`Selection.Plain.toJson`.
-/
import Mathlib.Data.Set.Basic
import NestedQuery.Proofs.Shape
import NestedQuery.Value.Json

namespace NestedQuery

/-! ### The numbers of a document -/

namespace Json

/-- The first value is somewhere in the second one. -/
inductive OccursIn (inner : Json) : Json → Prop
  | self : OccursIn inner inner
  | item {items : List Json} {json : Json} :
    json ∈ items → OccursIn inner json → OccursIn inner (.array items)
  | member {members : List (String × Json)} {member : String × Json} :
    member ∈ members → OccursIn inner member.2 → OccursIn inner (.object members)

/-- The numbers in a document. -/
def numbers (json : Json) : Set Value :=
  {v | v.rank = 2 ∧ ∃ inner : Json, inner.OccursIn json ∧ v = .ofJson inner}

end Json

/-! ### Plain values -/

variable {numbers : Set Value}

namespace Value

/-- Made of scalars, arrays and objects only, where all numbers are among these. -/
inductive Plain (numbers : Set Value) : Value → Prop
  | scalar {v : Value} : v.isScalar → (v.rank = 2 → v ∈ numbers) → Plain numbers v
  | array {items : List Value} : (∀ v ∈ items, v.Plain numbers) → Plain numbers (.array items)
  | object {entries : Entries Value} :
    (∀ e ∈ entries, e.2.Plain numbers) → Plain numbers (.object entries)

theorem plain_null : null.Plain numbers := .scalar rfl nofun

theorem isScalar_ofInt (n : Int) : (ofInt n).isScalar := by
  unfold ofInt
  split <;> rfl

mutual

theorem plain_of_numbers : ∀ json : Json,
    (∀ inner : Json, inner.OccursIn json → (ofJson inner).rank = 2 → ofJson inner ∈ numbers) →
      (ofJson json).Plain numbers
  | .null, h | .boolean _, h | .float _, h | .string _, h => .scalar rfl (h _ .self)
  | .integer n, h => .scalar (isScalar_ofInt n) (h _ .self)
  | .array items, h => .array (plain_items items fun _ hjson inner hinner =>
      h inner (.item hjson hinner))
  | .object members, h => .object (plain_entries members fun _ hmember inner hinner =>
      h inner (.member hmember hinner))

theorem plain_items : ∀ items : List Json,
    (∀ json ∈ items, ∀ inner : Json, inner.OccursIn json → (ofJson inner).rank = 2 →
      ofJson inner ∈ numbers) → ∀ v ∈ itemsOfJson items, v.Plain numbers
  | [], _ => List.forall_mem_nil _
  | json :: items, h => by
    obtain ⟨hjson, hitems⟩ := List.forall_mem_cons.1 h
    exact List.forall_mem_cons.2 ⟨plain_of_numbers json hjson, plain_items items hitems⟩

theorem plain_entries : ∀ members : List (String × Json),
    (∀ member ∈ members, ∀ inner : Json, inner.OccursIn member.2 → (ofJson inner).rank = 2 →
      ofJson inner ∈ numbers) → ∀ e ∈ entriesOfJson members, e.2.Plain numbers
  | [], _ => List.forall_mem_nil _
  | (_, json) :: members, h => by
    obtain ⟨hjson, hmembers⟩ := List.forall_mem_cons.1 h
    exact List.forall_mem_cons.2 ⟨plain_of_numbers json hjson, plain_entries members hmembers⟩

end

/-- The values of JSON are plain. -/
theorem plain_ofJson (json : Json) : (ofJson json).Plain json.numbers :=
  plain_of_numbers json fun inner hinner hrank => ⟨hrank, inner, hinner, rfl⟩

theorem exists_itemsToJson {items : List Value} (h : ∀ v ∈ items, ∃ json, v.toJson = .ok json) :
    ∃ jsons, itemsToJson items = .ok jsons := by
  induction items with
  | nil => exact ⟨[], rfl⟩
  | cons v items ih =>
    obtain ⟨⟨json, hjson⟩, hitems⟩ := List.forall_mem_cons.1 h
    obtain ⟨jsons, hjsons⟩ := ih hitems
    exact ⟨json :: jsons, by rw [itemsToJson, hjson, hjsons]; rfl⟩

theorem exists_entriesToJson {entries : Entries Value}
    (h : ∀ e ∈ entries, ∃ json, e.2.toJson = .ok json) :
    ∃ members, entriesToJson entries = .ok members := by
  induction entries with
  | nil => exact ⟨[], rfl⟩
  | cons e entries ih =>
    obtain ⟨⟨json, hjson⟩, hentries⟩ := List.forall_mem_cons.1 h
    obtain ⟨members, hmembers⟩ := ih hentries
    exact ⟨(e.1, json) :: members, by rw [entriesToJson, hjson, hmembers]; rfl⟩

namespace Plain

variable {v : Value}

/-- A plain value becomes JSON. -/
theorem toJson (h : v.Plain numbers) : ∃ json, v.toJson = .ok json := by
  induction h with
  | scalar hs _ =>
    obtain rfl | ⟨b, rfl⟩ | ⟨n, rfl⟩ | ⟨x, rfl⟩ | ⟨s, rfl⟩ | ⟨t, rfl⟩ := eq_of_isScalar hs <;>
      exact ⟨_, rfl⟩
  | array _ ih =>
    obtain ⟨jsons, hjsons⟩ := exists_itemsToJson ih
    exact ⟨.array jsons, by rw [Value.toJson, hjsons]; rfl⟩
  | object _ ih =>
    obtain ⟨members, hmembers⟩ := exists_entriesToJson ih
    exact ⟨.object members, by rw [Value.toJson, hmembers]; rfl⟩

theorem realize (h : v.Plain numbers) : v.realize = .ok v := by
  cases h with
  | scalar hs _ => exact realize_scalar hs
  | array => rfl
  | object => rfl

/-- What is read from a plain value is plain, and reading it does not fail. -/
theorem read (h : v.Plain numbers) (segment : Segment) :
    ∃ found, v.read segment = .ok found ∧ ∀ w ∈ found, w.Plain numbers := by
  cases h with
  | scalar hs _ => exact ⟨none, read_scalar hs segment, by simp⟩
  | @array items hitems =>
    refine ⟨_, rfl, fun w hw => ?_⟩
    obtain ⟨position, -, hw⟩ := Option.bind_eq_some_iff.1 hw
    exact hitems w (List.mem_of_getElem? hw)
  | @object entries hentries =>
    exact ⟨_, rfl, fun w hw => hentries _ (Entries.mem_of_get? hw)⟩

theorem follow (h : v.Plain numbers) (segments : List Segment) :
    ∃ found, v.follow segments = .ok found ∧ ∀ w ∈ found, w.Plain numbers := by
  induction segments generalizing v with
  | nil => exact ⟨some v, rfl, fun w hw => Option.some.inj hw ▸ h⟩
  | cons segment segments ih =>
    obtain ⟨found, hread, hfound⟩ := h.read segment
    unfold Value.follow
    rw [hread]
    cases found with
    | none => exact ⟨none, rfl, by simp⟩
    | some w => exact ih (hfound w rfl)

end Plain
end Value

/-- The values that were selected are plain. -/
def Selection.Plain (numbers : Set Value) (s : Selection) : Prop :=
  ∀ entries ∈ s, ∀ e ∈ entries, e.2.Plain numbers

namespace Selection.Plain

variable {s : Selection}

theorem toValue (h : s.Plain numbers) : s.toValue.Plain numbers := by
  cases s with
  | none => exact Value.plain_null
  | some entries => exact .object (h entries rfl)

theorem toJson (h : s.Plain numbers) : ∃ json, s.toJson = .ok json := by
  cases s with
  | none => exact ⟨.null, rfl⟩
  | some entries =>
    obtain ⟨members, hmembers⟩ := Value.exists_entriesToJson fun e he => (h entries rfl e he).toJson
    exact ⟨.object members, by rw [Selection.toJson, hmembers]; rfl⟩

end Selection.Plain

end NestedQuery
