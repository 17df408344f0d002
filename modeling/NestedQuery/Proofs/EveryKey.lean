/-
# Selecting every key

If the keys of a JSON object are paths that a query can say, the keys with
commas between them are a query, and it selects the object itself, with its
keys in order. A key with points in it is read as it is before it is taken
for a path, so it does not matter which paths the object has besides
(`Evaluator.answer_ofPath`); and no normalizer changes what is read from JSON
(`Evaluator.prepare_ofJson`).

The JSON of the selection is that of the object, and the very JSON that the
object was read from unless a whole number in it does not fit 64 bits.

Key definition: `Query.ofPaths`.
Key theorems: `parse_ofPaths`, `Evaluator.apply_ofPaths`, `apply_every_key`.
-/
import NestedQuery.Proofs.Conversion
import NestedQuery.Proofs.Grammar.Follow
import NestedQuery.Proofs.Layout
import NestedQuery.Proofs.PlainValues
import NestedQuery.Proofs.Stages

namespace NestedQuery

open Text Grammar

/-- The query that reads these paths and does nothing else. -/
def Query.ofPaths (paths : List String) : Query := paths.map Entity.ofPath

/-! ### The text of the query -/

/-- Paths with commas between them are laid out as the tokens of their query. -/
theorem exists_layout_ofPaths : ∀ {paths : List String} (p : Nat), paths ≠ [] →
    (∀ path ∈ paths, IsPath path) →
    ∃ ts, Layout p (",".intercalate paths).toList ts ∧ IsQuery [] ts (Query.ofPaths paths)
  | [], _, hne, _ => absurd rfl hne
  | [path], p, _, hp => by
    obtain ⟨ts, hts, hpath⟩ := (hp path List.mem_cons_self).layout_alone p
    rw [String.intercalate_singleton]
    have hheading := Heading.of_path (hpath [] (without_nil _)) begins_nil
    exact ⟨ts, hts, .last (.bare hheading (without_nil _)) (without_nil _)⟩
  | path :: other :: paths, p, _, hp => by
    obtain ⟨us, hus, hquery⟩ := exists_layout_ofPaths (p + path.toList.length + 1)
      (List.cons_ne_nil other paths) fun path hmem => hp path (List.mem_cons_of_mem _ hmem)
    have hsep : Separates ',' := by decide
    obtain ⟨ts, hts, hpath⟩ := (hp path List.mem_cons_self).layout hsep.head (.sign rfl hus)
    let comma : Token := ⟨.comma, ",", p + path.toList.length⟩
    have hbegins : Begins [.comma] (comma :: (us ++ [])) :=
      begins_cons (List.mem_singleton.2 rfl)
    have hheading := Heading.of_path (hpath _ (hbegins.without (by decide)))
      (hbegins.mono (by decide))
    rw [toList_intercalate_cons (c := ',') rfl]
    exact ⟨_, hts, .more (.bare hheading (hbegins.without (by decide))) rfl hquery⟩

theorem Query.aliases_ofPaths (paths : List String) : (Query.ofPaths paths).aliases = paths := by
  unfold aliases ofPaths
  rw [List.map_map]
  exact List.map_id paths

theorem Query.distinctBelow_ofPaths (paths : List String) :
    Query.DistinctBelow (Query.ofPaths paths) := by
  induction paths with
  | nil => exact distinctBelow_nil
  | cons path paths ih => exact distinctBelow_cons.2 ⟨nofun, ih⟩

/-- Distinct paths with commas between them say their query. -/
theorem parse_ofPaths {paths : List String} (hd : paths.Nodup) (hp : ∀ path ∈ paths, IsPath path) :
    parse (",".intercalate paths) = .ok (Query.ofPaths paths) := by
  by_cases hne : paths = []
  · subst hne
    have hs : scan "" = .ok [] := (Layout.done blank_nil).scanFrom_eq
    rw [String.intercalate_nil, parse_of_scan hs]
    rfl
  · obtain ⟨ts, hts, hquery⟩ := exists_layout_ofPaths 0 hne hp
    refine parse_eq_ok_iff.2 ⟨ts, hts.scanFrom_eq, .inr ⟨hquery, ?_, ?_⟩⟩
    · rwa [Query.aliases_ofPaths]
    · exact Query.distinctBelow_ofPaths paths

/-! ### Applying it -/

namespace Evaluator

variable {ev : Evaluator} {entries : Entries Value} {path : String}

/-- Neither computing nor normalizing changes what is read from JSON. -/
theorem prepare_ofJson (hn : ev.normalizers = Normalizer.default) (entity : Entity) (json : Json) :
    ev.prepare entity (.ofJson json) = .ok (.ofJson json) := by
  unfold prepare
  rw [hn]
  cases json with
  | integer n =>
    unfold Value.ofJson Value.ofInt
    split <;> rfl
  | _ => rfl

/-- The prepared value of a path is what the entity makes of the object. -/
theorem answer_of_prepare {v w : Value}
    (hget : ev.accessor.getKey (.object entries) path = .ok v)
    (hprepare : ev.prepare (.ofPath path) v = .ok w) (hw : w.realize = .ok w) :
    ev.answer (.value (.object entries)) (.ofPath path) = pure w := by
  have hfinish : ev.finish (.ofPath path) w = pure w := by
    unfold finish
    rw [hw]
    rfl
  rw [answer_object hget hprepare]
  exact hfinish

/-- What is found under a path and comes from JSON is what the entity makes of the object. -/
theorem answer_of_getKey (hn : ev.normalizers = Normalizer.default) {json : Json}
    (h : ev.accessor.getKey (.object entries) path = .ok (.ofJson json)) :
    ev.answer (.value (.object entries)) (.ofPath path) = pure (.ofJson json) :=
  answer_of_prepare h (prepare_ofJson hn _ json) (Value.plain_ofJson json).realize

/-- The value of a key is what the entity makes of the object, even if there is a value at the
path that the key says. -/
theorem answer_ofPath (hn : ev.normalizers = Normalizer.default) {json : Json}
    (h : entries.get? path = some (.ofJson json)) :
    ev.answer (.value (.object entries)) (.ofPath path) = pure (.ofJson json) := by
  exact answer_of_getKey hn (ev.accessor.getKey_of_get? h)

/-- The query of some keys selects their entries. -/
theorem apply_ofPaths (hn : ev.normalizers = Normalizer.default) {chosen : Entries Value}
    (h : ∀ e ∈ chosen, entries.get? e.1 = some e.2 ∧ ∃ json, e.2 = Value.ofJson json) :
    ev.apply (Query.ofPaths chosen.keys) (.value (.object entries)) = pure (some chosen) := by
  have hloop : Eval.forEach (fun entity => (entity.aliasName, ·) <$>
      ev.answer (.value (.object entries)) entity) (Query.ofPaths chosen.keys) = pure chosen := by
    induction chosen with
    | nil => rfl
    | cons e chosen ih =>
      obtain ⟨key, value⟩ := e
      obtain ⟨⟨hget, json, rfl⟩, hchosen⟩ := List.forall_mem_cons.1 h
      show Eval.forEach _ (Entity.ofPath key :: Query.ofPaths (Entries.keys chosen)) = _
      rw [Eval.forEach, answer_ofPath hn hget, ih hchosen]
      rfl
  rw [apply_eq_forEach (Root.hasProperties_object entries), hloop]
  rfl

end Evaluator

/-- **Selecting every key is the identity.** If the keys of a JSON object are distinct and are paths
that a query can say, the keys with commas between them are a query, and it gives back the object:
the same keys in the same order, with their values. Neither the way in which properties are read nor
that in which objects are taken matters. The JSON of the result is that of the object, and the one
that the object was read from if its whole numbers fit 64 bits. -/
theorem apply_every_key {members : List (String × Json)} (hd : (Entries.keys members).Nodup)
    (hp : ∀ key ∈ Entries.keys members, IsPath key) :
    ∃ query, parse (",".intercalate (Entries.keys members)) = .ok query ∧
      ∃ entries, Value.ofJson (.object members) = .object entries ∧
        (∀ (ev : Evaluator) (g : Generator), ev.normalizers = Normalizer.default →
          ev.apply query (.value (.ofJson (.object members))) g = ⟨.ok (some entries), [], g⟩) ∧
        (∃ json, Selection.toJson (some entries) = .ok json ∧
          (Value.ofJson (.object members)).toJson = .ok json) ∧
        ((Json.object members).Exact → Selection.toJson (some entries) = .ok (.object members)) := by
  have hkeys : Entries.keys (Value.entriesOfJson members) = Entries.keys members := by
    rw [Value.entriesOfJson_eq_map, Entries.keys, List.map_map]
    rfl
  refine ⟨_, parse_ofPaths hd hp, Value.entriesOfJson members, rfl, fun ev g hn => ?_, ?_,
    fun h => ?_⟩
  · have hentries : ∀ e ∈ Value.entriesOfJson members,
        Entries.get? (Value.entriesOfJson members) e.1 = some e.2 ∧
          ∃ json, e.2 = Value.ofJson json := by
      intro e he
      refine ⟨Entries.get?_of_mem (hkeys ▸ hd) he, ?_⟩
      rw [Value.entriesOfJson_eq_map] at he
      obtain ⟨m, -, rfl⟩ := List.mem_map.1 he
      exact ⟨m.2, rfl⟩
    rw [← hkeys, Value.ofJson, Evaluator.apply_ofPaths hn hentries]
    rfl
  · obtain ⟨json, hjson⟩ := (Value.plain_ofJson (.object members)).toJson
    exact ⟨json, hjson, hjson⟩
  · exact Value.toJson_ofJson h

/-- Keys with a point or the words of keywords are read like others. -/
theorem apply_every_key_keywords :
    let json : Json :=
      .object [("a.b", .integer 1), ("as", .array [.null]),
        ("null", .object [("b", .boolean true)])]
    ∃ query, parse "a.b,as,null" = .ok query ∧
      ∃ entries, Value.ofJson json = .object entries ∧
        (∀ (strict : Bool) (recursion : ObjectRecursion) (g : Generator),
          Evaluator.apply { accessor := ⟨strict⟩, recursion } query (.value (.ofJson json)) g =
            ⟨.ok (some entries), [], g⟩) ∧
        Selection.toJson (some entries) = .ok json := by
  intro json
  let members : List (String × Json) :=
    [("a.b", .integer 1), ("as", .array [.null]), ("null", .object [("b", .boolean true)])]
  have hkeys : ∀ key ∈ Entries.keys members, IsPath key := by
    have ha : IsPath "a.b" := ⟨["a", "b"], by simp, by decide, rfl⟩
    have has : IsPath "as" := ⟨["as"], by simp, by decide, rfl⟩
    have hnull : IsPath "null" := ⟨["null"], by simp, by decide, rfl⟩
    exact List.forall_mem_cons.2
      ⟨ha, List.forall_mem_cons.2 ⟨has, List.forall_mem_singleton.2 hnull⟩⟩
  have hexact : json.Exact := by
    refine .object (List.forall_mem_cons.2 ⟨.integer (by decide), List.forall_mem_cons.2
      ⟨.array (List.forall_mem_singleton.2 .null), List.forall_mem_singleton.2
        (.object (List.forall_mem_singleton.2 (.boolean true)))⟩⟩)
  obtain ⟨query, hparse, entries, hvalue, happly, -, hjson⟩ := apply_every_key (by decide) hkeys
  exact ⟨query, hparse, entries, hvalue, fun strict recursion g => happly _ g rfl, hjson hexact⟩

end NestedQuery
