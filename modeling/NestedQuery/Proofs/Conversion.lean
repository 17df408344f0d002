/-
# Values and JSON, back and forth

JSON whose whole numbers fit 64 bits is the JSON of the value that it is read
as, and a value of the kinds that JSON has is read back from its JSON as it
was. Other values lose what JSON has no words for, but only once: what a
value is written as fits, so it is written the same way when it has been read.

A value has no JSON exactly if some collection that is written with it cannot
be realized, and then the first of them in the order of writing says why
(`Value.toJson_eq_error_iff`).

Key definitions: `Json.Exact`, `Value.Native`, `Value.reached`,
`Value.failure?`.
Key theorems: `Value.toJson_ofJson`, `Value.Native.ofJson_toJson`,
`Value.exact_of_toJson`, `Value.toJson_eq_error_iff`, `toJson_ofJson_roundTrip`.
-/
import NestedQuery.Token.Scan
import NestedQuery.Value.Json

namespace NestedQuery

/-! ### From JSON and back -/

/-- Whole numbers fit 64 bits with a sign. -/
inductive Json.Exact : Json → Prop
  | null : Json.Exact .null
  | boolean (b : Bool) : Json.Exact (.boolean b)
  | integer {n : Int} (h : Int64.minValue.toInt ≤ n ∧ n ≤ Int64.maxValue.toInt) :
      Json.Exact (.integer n)
  | float (x : Binary64.Finite) : Json.Exact (.float x)
  | string (s : String) : Json.Exact (.string s)
  | array {items : List Json} (h : ∀ json ∈ items, json.Exact) : Json.Exact (.array items)
  | object {members : List (String × Json)} (h : ∀ m ∈ members, m.2.Exact) :
      Json.Exact (.object members)

namespace Value

theorem toJson_ofInt {n : Int} (h : Int64.minValue.toInt ≤ n ∧ n ≤ Int64.maxValue.toInt) :
    (ofInt n).toJson = .ok (.integer n) := by
  have hn : (Int64.ofInt n).toInt = n := by
    obtain ⟨hmin, hmax⟩ := h
    rw [Int64.toInt_minValue] at hmin
    rw [Int64.toInt_maxValue] at hmax
    exact Int64.toInt_ofInt_of_le hmin (by omega)
  rw [ofInt, if_pos h, toJson, hn]

theorem itemsToJson_ofJson {items : List Json}
    (h : ∀ json ∈ items, (ofJson json).toJson = .ok json) :
    itemsToJson (itemsOfJson items) = .ok items := by
  induction items with
  | nil => rfl
  | cons json items ih =>
    obtain ⟨hjson, hitems⟩ := List.forall_mem_cons.1 h
    rw [itemsOfJson, itemsToJson, hjson, ih hitems]
    rfl

theorem entriesToJson_ofJson {members : List (String × Json)}
    (h : ∀ m ∈ members, (ofJson m.2).toJson = .ok m.2) :
    entriesToJson (entriesOfJson members) = .ok members := by
  induction members with
  | nil => rfl
  | cons m members ih =>
    obtain ⟨hm, hmembers⟩ := List.forall_mem_cons.1 h
    rw [entriesOfJson, entriesToJson, hm, ih hmembers]
    rfl

/-- What is read from JSON with whole numbers that fit is written as that JSON. -/
theorem toJson_ofJson {json : Json} (h : json.Exact) : (ofJson json).toJson = .ok json := by
  induction h with
  | integer h => exact toJson_ofInt h
  | array _ ih =>
    rw [ofJson, toJson, itemsToJson_ofJson ih]
    rfl
  | object _ ih =>
    rw [ofJson, toJson, entriesToJson_ofJson ih]
    rfl
  | _ => rfl

theorem entriesOfJson_eq_map (members : List (String × Json)) :
    entriesOfJson members = members.map fun m => (m.1, ofJson m.2) := by
  induction members with
  | nil => rfl
  | cons m members ih =>
    rw [entriesOfJson, ih]
    rfl

/-! ### To JSON and back -/

/-- Made of what JSON has: numbers that are finite, texts, arrays, objects. -/
inductive Native : Value → Prop
  | null : Native null
  | boolean (b : Bool) : Native (boolean b)
  | integer (n : Int64) : Native (integer n)
  | float (x : Binary64.Finite) : Native (float (.finite x))
  | string (s : String) : Native (string s)
  | array {items : List Value} (h : ∀ v ∈ items, v.Native) : Native (array items)
  | object {entries : List (String × Value)} (h : ∀ e ∈ entries, e.2.Native) :
      Native (object entries)

/-- A word is a whole number that fits. -/
theorem fits_toInt (n : Int64) :
    Int64.minValue.toInt ≤ n.toInt ∧ n.toInt ≤ Int64.maxValue.toInt := by
  rw [Int64.toInt_minValue, Int64.toInt_maxValue]
  exact ⟨n.le_toInt, Int.le_sub_one_of_lt n.toInt_lt⟩

theorem ofInt_toInt (n : Int64) : ofInt n.toInt = integer n := by
  rw [ofInt, if_pos (fits_toInt n), Int64.ofInt_toInt]

theorem itemsOfJson_itemsToJson {items : List Value}
    (h : ∀ v ∈ items, ∃ json, v.toJson = .ok json ∧ ofJson json = v) :
    ∃ jsons, itemsToJson items = .ok jsons ∧ itemsOfJson jsons = items := by
  induction items with
  | nil => exact ⟨[], rfl, rfl⟩
  | cons v items ih =>
    obtain ⟨⟨json, hjson, hv⟩, hitems⟩ := List.forall_mem_cons.1 h
    obtain ⟨jsons, hjsons, hvs⟩ := ih hitems
    refine ⟨json :: jsons, ?_, ?_⟩
    · rw [itemsToJson, hjson, hjsons]
      rfl
    · rw [itemsOfJson, hv, hvs]

theorem entriesOfJson_entriesToJson {entries : List (String × Value)}
    (h : ∀ e ∈ entries, ∃ json, e.2.toJson = .ok json ∧ ofJson json = e.2) :
    ∃ members, entriesToJson entries = .ok members ∧ entriesOfJson members = entries := by
  induction entries with
  | nil => exact ⟨[], rfl, rfl⟩
  | cons e entries ih =>
    obtain ⟨⟨json, hjson, hv⟩, hentries⟩ := List.forall_mem_cons.1 h
    obtain ⟨members, hmembers, hvs⟩ := ih hentries
    refine ⟨(e.1, json) :: members, ?_, ?_⟩
    · rw [entriesToJson, hjson, hmembers]
      rfl
    · rw [entriesOfJson, hv, hvs]

/-- What JSON has in common with values is read back as it was. -/
theorem Native.ofJson_toJson {v : Value} (h : v.Native) :
    ∃ json, v.toJson = .ok json ∧ ofJson json = v := by
  induction h with
  | null => exact ⟨.null, rfl, rfl⟩
  | boolean b => exact ⟨.boolean b, rfl, rfl⟩
  | integer n => exact ⟨.integer n.toInt, rfl, ofInt_toInt n⟩
  | float x => exact ⟨.float x, rfl, rfl⟩
  | string s => exact ⟨.string s, rfl, rfl⟩
  | array _ ih =>
    obtain ⟨jsons, hjsons, hitems⟩ := itemsOfJson_itemsToJson ih
    refine ⟨.array jsons, ?_, congrArg Value.array hitems⟩
    rw [toJson, hjsons]
    rfl
  | object _ ih =>
    obtain ⟨members, hmembers, hentries⟩ := entriesOfJson_entriesToJson ih
    refine ⟨.object members, ?_, congrArg Value.object hentries⟩
    rw [toJson, hmembers]
    rfl

theorem exact_ofFloat (x : Binary64) : (Json.ofFloat x).Exact := by
  cases x with
  | finite x => exact .float x
  | infinity | nan => exact .null

mutual

/-- Whole numbers are written as what fits. -/
theorem exact_of_toJson : ∀ {v : Value} {json : Json}, v.toJson = .ok json → json.Exact
  | .null, _, rfl | .deferred _ _, _, rfl => .null
  | .boolean b, _, rfl => .boolean b
  | .integer n, _, rfl => .integer (fits_toInt n)
  | .float x, _, rfl => exact_ofFloat x
  | .string s, _, rfl => .string s
  | .dateTime t, _, rfl => .string t.iso
  | .array _, _, h | .collection _ (.ok _), _, h => by
    obtain ⟨jsons, hjsons, rfl⟩ := map_eq_ok_iff.1 h
    exact .array (exact_of_itemsToJson hjsons)
  | .object _, _, h | .record _ _ _, _, h => by
    obtain ⟨members, hmembers, rfl⟩ := map_eq_ok_iff.1 h
    exact .object (exact_of_entriesToJson hmembers)
  | .collection _ (.error _), _, h => by cases h

theorem exact_of_itemsToJson : ∀ {items : List Value} {jsons : List Json},
    itemsToJson items = .ok jsons → ∀ json ∈ jsons, json.Exact
  | [], _, rfl => List.forall_mem_nil _
  | v :: items, _, h => by
    rw [itemsToJson] at h
    split at h
    · cases h
    · next hjson =>
      obtain ⟨jsons, hjsons, rfl⟩ := map_eq_ok_iff.1 h
      exact List.forall_mem_cons.2 ⟨exact_of_toJson hjson, exact_of_itemsToJson hjsons⟩

theorem exact_of_entriesToJson : ∀ {entries : List (String × Value)}
    {members : List (String × Json)}, entriesToJson entries = .ok members →
      ∀ m ∈ members, m.2.Exact
  | [], _, rfl => List.forall_mem_nil _
  | (key, v) :: entries, _, h => by
    rw [entriesToJson] at h
    split at h
    · cases h
    · next hjson =>
      obtain ⟨members, hmembers, rfl⟩ := map_eq_ok_iff.1 h
      exact List.forall_mem_cons.2 ⟨exact_of_toJson hjson, exact_of_entriesToJson hmembers⟩

end

/-! ### Failures -/

mutual

/-- The value and all that is written with it, each one in front of what it holds: items, entries,
attributes, and the items that a collection yields. -/
def reached : Value → List Value
  | array items => array items :: reachedItems items
  | object entries => object entries :: reachedEntries entries
  | record handle type attributes => record handle type attributes :: reachedEntries attributes
  | collection handle (.ok items) => collection handle (.ok items) :: reachedItems items
  | v => [v]

/-- What is reached from items, one item after the other. -/
def reachedItems : List Value → List Value
  | [] => []
  | v :: vs => reached v ++ reachedItems vs

/-- What is reached from entries, one entry after the other. -/
def reachedEntries : List (String × Value) → List Value
  | [] => []
  | (_, v) :: entries => reached v ++ reachedEntries entries

end

/-- Why the value cannot be realized, if it is a collection that fails. -/
def failure? : Value → Option EvalError
  | collection _ (.error e) => some e
  | _ => none

theorem failure?_eq_some_iff {v : Value} {e : EvalError} :
    v.failure? = some e ↔ ∃ handle, v = collection handle (.error e) := by
  constructor
  · intro h
    unfold failure? at h
    split at h
    · cases h
      exact ⟨_, rfl⟩
    · cases h
  · rintro ⟨handle, rfl⟩
    rfl

/-- The first failure in what is written first, or else in what is written next. -/
theorem eq_error_iff_findSome? {α β : Type} {x : Except EvalError α} {f : α → Except EvalError β}
    {first next : List Value} {e : EvalError}
    (hx : ∀ e, x = .error e ↔ first.findSome? failure? = some e)
    (hf : ∀ a, f a = .error e ↔ next.findSome? failure? = some e) :
    x.bind f = .error e ↔ (first ++ next).findSome? failure? = some e := by
  rw [List.findSome?_append]
  cases x with
  | error e' =>
    rw [(hx e').1 rfl]
    simp [Except.bind]
  | ok a =>
    have hnone : first.findSome? failure? = none :=
      Option.eq_none_iff_forall_not_mem.2 fun e' he => nomatch (hx e').2 he
    rw [hnone, Option.none_or]
    exact hf a

mutual

/-- A value has no JSON because of the first collection written with it that fails. -/
theorem toJson_eq_error_iff : ∀ (v : Value) {e : EvalError},
    v.toJson = .error e ↔ v.reached.findSome? failure? = some e
  | .null, _ | .boolean _, _ | .integer _, _ | .float _, _ | .string _, _ | .dateTime _, _
  | .deferred _ _, _ => by simp [toJson, reached, failure?]
  | .collection _ (.error _), _ => by simp [toJson, reached, failure?]
  | .array items, _ | .collection _ (.ok items), _ => by
    rw [toJson, map_eq_error_iff, itemsToJson_eq_error_iff items, reached]
    rfl
  | .object entries, _ | .record _ _ entries, _ => by
    rw [toJson, map_eq_error_iff, entriesToJson_eq_error_iff entries, reached]
    rfl

theorem itemsToJson_eq_error_iff : ∀ (items : List Value) {e : EvalError},
    itemsToJson items = .error e ↔ (reachedItems items).findSome? failure? = some e
  | [], _ => by simp [itemsToJson, reachedItems]
  | v :: items, e => by
    have hbind : itemsToJson (v :: items) =
        v.toJson.bind fun json => (itemsToJson items).map (json :: ·) := by
      rw [itemsToJson]
      cases v.toJson <;> rfl
    rw [hbind, reachedItems]
    refine eq_error_iff_findSome? (fun e => toJson_eq_error_iff v) fun json => ?_
    rw [map_eq_error_iff, itemsToJson_eq_error_iff items]

theorem entriesToJson_eq_error_iff : ∀ (entries : List (String × Value)) {e : EvalError},
    entriesToJson entries = .error e ↔ (reachedEntries entries).findSome? failure? = some e
  | [], _ => by simp [entriesToJson, reachedEntries]
  | (key, v) :: entries, e => by
    have hbind : entriesToJson ((key, v) :: entries) =
        v.toJson.bind fun json => (entriesToJson entries).map ((key, json) :: ·) := by
      rw [entriesToJson]
      cases v.toJson <;> rfl
    rw [hbind, reachedEntries]
    refine eq_error_iff_findSome? (fun e => toJson_eq_error_iff v) fun json => ?_
    rw [map_eq_error_iff, entriesToJson_eq_error_iff entries]

end

theorem exists_toJson_eq_error_iff (v : Value) :
    (∃ e, v.toJson = .error e) ↔ ∃ w ∈ v.reached, ∃ handle e, w = collection handle (.error e) := by
  constructor
  · rintro ⟨e, he⟩
    obtain ⟨w, hw, hfailure⟩ := List.exists_of_findSome?_eq_some ((toJson_eq_error_iff v).1 he)
    obtain ⟨handle, rfl⟩ := failure?_eq_some_iff.1 hfailure
    exact ⟨_, hw, handle, e, rfl⟩
  · rintro ⟨_, hw, handle, e, rfl⟩
    have hsome : (v.reached.findSome? failure?).isSome :=
      List.findSome?_isSome_iff.2 ⟨_, hw, rfl⟩
    obtain ⟨e', he'⟩ := Option.isSome_iff_exists.1 hsome
    exact ⟨e', (toJson_eq_error_iff v).2 he'⟩

end Value

/-- **Values and JSON go back and forth.** JSON whose whole numbers fit 64 bits is read and written
back as it was, and so is a value made of what JSON has. Any value that is written is written the
same way when its JSON has been read. A value cannot be written exactly if some collection among
what is written with it fails, and the first one in the order of writing says why. -/
theorem toJson_ofJson_roundTrip :
    (∀ json : Json, json.Exact → (Value.ofJson json).toJson = .ok json) ∧
      (∀ v : Value, v.Native → ∃ json, v.toJson = .ok json ∧ Value.ofJson json = v) ∧
      ∀ v : Value,
        (∀ json, v.toJson = .ok json → (Value.ofJson json).toJson = .ok json) ∧
          ((∃ e, v.toJson = .error e) ↔
            ∃ w ∈ v.reached, ∃ handle e, w = .collection handle (.error e)) ∧
          ∀ e, v.toJson = .error e ↔ v.reached.findSome? Value.failure? = some e := by
  refine ⟨fun json h => Value.toJson_ofJson h, fun v h => h.ofJson_toJson, fun v => ?_⟩
  have hagain : ∀ json, v.toJson = .ok json → (Value.ofJson json).toJson = .ok json :=
    fun json h => Value.toJson_ofJson (Value.exact_of_toJson h)
  exact ⟨hagain, v.exists_toJson_eq_error_iff, fun e => v.toJson_eq_error_iff⟩

/-- A record loses its type, its date and what is not a number, but nothing more when its JSON is
read; behind it, the first of two collections that fail says why. -/
theorem toJson_ofJson_roundTrip_record :
    let start : DateTime := ⟨0, 0, 7200⟩
    let post : Value := .record 0 "Post"
      [("at", .dateTime start), ("tags", .collection 1 (.ok [.string "a", .float .nan]))]
    let json : Json := .object [("at", .string start.iso), ("tags", .array [.string "a", .null])]
    let first : EvalError := .dataSource "blog" "first"
    let second : EvalError := .dataSource "blog" "second"
    let posts : Value :=
      .array [post, .object [("rest", .collection 2 (.error first))], .collection 3 (.error second)]
    post.toJson = .ok json ∧ (Value.ofJson json).toJson = .ok json ∧
      posts.toJson = .error first := by
  intro start post json first second posts
  obtain ⟨-, -, hvalue⟩ := toJson_ofJson_roundTrip
  have hpost : post.toJson = .ok json := rfl
  exact ⟨hpost, (hvalue post).1 json hpost, ((hvalue posts).2.2 first).2 rfl⟩

end NestedQuery
