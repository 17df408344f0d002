/-
# Keyed entries in order

A sequence of keys with their values, in the order in which the keys were
first written. Writing a key again replaces its value and keeps its place, so
the keys of entries built by `insert` are distinct.

Key definitions: `Entries`, `Entries.get?`, `Entries.insert`,
`Entries.ofPairs`.
Key theorem: `Entries.nodup_keys_ofPairs`.
-/
namespace NestedQuery

/-- Keys with their values, in order. -/
abbrev Entries (α : Type) := List (String × α)

namespace Entries

variable {α : Type}

/-- The keys, in order. -/
def keys (entries : Entries α) : List String := entries.map Prod.fst

/-- The value of a key. -/
def get? : Entries α → String → Option α
  | [], _ => none
  | (k, v) :: entries, key => if k = key then some v else get? entries key

/-- The entries with this value for the key: in its place if it has one, else at the end. -/
def insert : Entries α → String → α → Entries α
  | [], key, value => [(key, value)]
  | (k, v) :: entries, key, value =>
    if k = key then (key, value) :: entries else (k, v) :: insert entries key value

/-- The pairs written one after the other. -/
def ofPairs (pairs : List (String × α)) : Entries α :=
  pairs.foldl (fun entries p => entries.insert p.1 p.2) []

theorem length_keys (entries : Entries α) : entries.keys.length = entries.length :=
  List.length_map _

theorem mem_keys {entries : Entries α} {key : String} {value : α} (h : (key, value) ∈ entries) :
    key ∈ entries.keys := List.mem_map_of_mem (f := Prod.fst) h

@[simp] theorem get?_nil (key : String) : get? ([] : Entries α) key = none := rfl

theorem mem_of_get? {entries : Entries α} {key : String} {value : α}
    (h : get? entries key = some value) : (key, value) ∈ entries := by
  induction entries with
  | nil => cases h
  | cons e entries ih =>
    obtain ⟨k, v⟩ := e
    unfold get? at h
    split at h
    · next hk =>
      cases h
      exact hk ▸ List.mem_cons_self
    · exact List.mem_cons_of_mem _ (ih h)

/-- If keys are distinct, each entry is found under its key. -/
theorem get?_of_mem {entries : Entries α} (h : entries.keys.Nodup) {key : String} {value : α}
    (hm : (key, value) ∈ entries) : get? entries key = some value := by
  induction entries with
  | nil => cases hm
  | cons e entries ih =>
    obtain ⟨k, v⟩ := e
    obtain ⟨hk, hkeys⟩ := List.nodup_cons.1 h
    rcases List.mem_cons.1 hm with he | hm
    · cases he
      exact if_pos rfl
    · have hne : k ≠ key := fun he => hk (he ▸ mem_keys hm)
      rw [get?, if_neg hne]
      exact ih hkeys hm

theorem mem_of_mem_insert {entries : Entries α} {key : String} {value : α} {e : String × α}
    (h : e ∈ entries.insert key value) : e = (key, value) ∨ e ∈ entries := by
  induction entries with
  | nil => exact .inl (List.mem_singleton.1 h)
  | cons first entries ih =>
    obtain ⟨k, v⟩ := first
    unfold insert at h
    split at h
    · rcases List.mem_cons.1 h with he | he
      · exact .inl he
      · exact .inr (List.mem_cons_of_mem _ he)
    · rcases List.mem_cons.1 h with he | he
      · exact .inr (he ▸ List.mem_cons_self)
      · exact (ih he).imp_right (List.mem_cons_of_mem _)

theorem mem_keys_insert (entries : Entries α) (key other : String) (value : α) :
    other ∈ keys (insert entries key value) ↔ other = key ∨ other ∈ keys entries := by
  induction entries with
  | nil => simp [insert, keys]
  | cons e entries ih =>
    obtain ⟨k, v⟩ := e
    simp only [keys] at ih
    unfold insert
    split
    · next h => simp [keys, h]
    · simp only [keys, List.map_cons, List.mem_cons, ih]
      exact ⟨fun h => by rcases h with h | h | h <;> simp [h],
        fun h => by rcases h with h | h | h <;> simp [h]⟩

theorem nodup_keys_insert {entries : Entries α} (h : entries.keys.Nodup) (key : String)
    (value : α) : (entries.insert key value).keys.Nodup := by
  induction entries with
  | nil => simp [insert, keys]
  | cons e entries ih =>
    obtain ⟨k, v⟩ := e
    have hc : k ∉ keys entries ∧ (keys entries).Nodup := List.nodup_cons.1 h
    unfold insert
    split
    · next he => exact List.nodup_cons.2 ⟨he ▸ hc.1, hc.2⟩
    · next he =>
      refine List.nodup_cons.2 ⟨?_, ih hc.2⟩
      show k ∉ keys (insert entries key value)
      rw [mem_keys_insert]
      simp [he, hc.1]

/-- Entries that were written one after the other have distinct keys. -/
theorem nodup_keys_ofPairs (pairs : List (String × α)) : (ofPairs pairs).keys.Nodup := by
  have h : ∀ (ps : List (String × α)) (entries : Entries α), entries.keys.Nodup →
      (ps.foldl (fun entries p => entries.insert p.1 p.2) entries).keys.Nodup := by
    intro ps
    induction ps with
    | nil => exact fun _ h => h
    | cons p ps ih => exact fun entries he => ih _ (nodup_keys_insert he p.1 p.2)
  exact h pairs [] List.nodup_nil

/-- The entries built from pairs are among these. -/
theorem mem_of_mem_ofPairs {pairs : List (String × α)} {e : String × α} (h : e ∈ ofPairs pairs) :
    e ∈ pairs := by
  have hfold : ∀ (ps : List (String × α)) (entries : Entries α),
      e ∈ ps.foldl (fun entries p => entries.insert p.1 p.2) entries → e ∈ ps ∨ e ∈ entries := by
    intro ps
    induction ps with
    | nil => exact fun _ h => .inr h
    | cons p ps ih =>
      intro entries h
      rcases ih _ h with he | he
      · exact .inl (List.mem_cons_of_mem _ he)
      · refine (mem_of_mem_insert he).imp_left ?_
        rintro rfl
        exact List.mem_cons_self
  exact (hfold pairs [] h).resolve_right List.not_mem_nil

end Entries
end NestedQuery
