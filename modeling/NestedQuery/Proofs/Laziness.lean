/-
# Laziness

A value and its lazy twin, in which collections stand for some of the
arrays, cannot be told apart by what a query makes of them: whatever the
accessor and the way sub-queries take objects, with the default normalizers
or with none, applying a query reports the same and fails with the same
error or gives selections with the same JSON.

To be lazy twins is a simulation between an evaluator and itself, since each
place that meets an array meets a collection of the same items alike
(`Value.outcome?`), and it is one that JSON does not see.

Key definition: `LazyTwin`.
Key theorems: `LazyTwin.simulation`, `LazyTwin.toJson`,
`apply_eq_of_lazyTwin`.
-/
import NestedQuery.Proofs.Simulation
import NestedQuery.Value.Json

namespace NestedQuery

/-- The second value is the first one with some of its arrays, at any depth, replaced by
collections that give the items. -/
inductive LazyTwin : Value → Value → Prop
  | scalar {v : Value} : v.isScalar → LazyTwin v v
  | array {items items' : List Value} :
    List.Forall₂ LazyTwin items items' → LazyTwin (.array items) (.array items')
  | collected {handle : Nat} {items items' : List Value} :
    List.Forall₂ LazyTwin items items' → LazyTwin (.array items) (.collection handle (.ok items'))
  | collection {handle handle' : Nat} {items items' : List Value} :
    List.Forall₂ LazyTwin items items' →
    LazyTwin (.collection handle (.ok items)) (.collection handle' (.ok items'))
  | failing {handle handle' : Nat} {e : EvalError} :
    LazyTwin (.collection handle (.error e)) (.collection handle' (.error e))
  | object {entries entries' : Entries Value} : entries.keys = entries'.keys →
    List.Forall₂ LazyTwin (entries.map Prod.snd) (entries'.map Prod.snd) →
    LazyTwin (.object entries) (.object entries')
  | record {handle handle' : Nat} {type : String} {attributes attributes' : Entries Value} :
    attributes.keys = attributes'.keys →
    List.Forall₂ LazyTwin (attributes.map Prod.snd) (attributes'.map Prod.snd) →
    LazyTwin (.record handle type attributes) (.record handle' type attributes')
  | deferred {handle : Nat} {compute : Entity → Accessor → Except EvalError Value} :
    LazyTwin (.deferred handle compute) (.deferred handle compute)

namespace LazyTwin

mutual

/-- A value of which nothing is replaced is a twin of its own. -/
theorem refl : ∀ v : Value, LazyTwin v v
  | .null => .scalar rfl
  | .boolean _ => .scalar rfl
  | .integer _ => .scalar rfl
  | .float _ => .scalar rfl
  | .string _ => .scalar rfl
  | .dateTime _ => .scalar rfl
  | .array items => .array (refl_items items)
  | .object entries => .object rfl (refl_entries entries)
  | .record _ _ attributes => .record rfl (refl_entries attributes)
  | .deferred _ _ => .deferred
  | .collection _ (.ok items) => .collection (refl_items items)
  | .collection _ (.error _) => .failing

theorem refl_items : ∀ items : List Value, List.Forall₂ LazyTwin items items
  | [] => .nil
  | v :: items => .cons (refl v) (refl_items items)

theorem refl_entries : ∀ entries : List (String × Value),
    List.Forall₂ LazyTwin (entries.map Prod.snd) (entries.map Prod.snd)
  | [] => .nil
  | (_, v) :: entries => .cons (refl v) (refl_entries entries)

end

/-! ### JSON -/

mutual

theorem toJson : ∀ {v w : Value}, LazyTwin v w → v.toJson = w.toJson
  | _, _, .scalar _ => rfl
  | _, _, .array hi => by rw [Value.toJson, Value.toJson, itemsToJson hi]
  | _, _, .collected hi => by rw [Value.toJson, Value.toJson, itemsToJson hi]
  | _, _, .collection hi => by rw [Value.toJson, Value.toJson, itemsToJson hi]
  | _, _, .failing => by rw [Value.toJson, Value.toJson]
  | _, _, .object hk he => by rw [Value.toJson, Value.toJson, entriesToJson hk he]
  | _, _, .record hk he => by rw [Value.toJson, Value.toJson, entriesToJson hk he]
  | _, _, .deferred => rfl

theorem itemsToJson : ∀ {items items' : List Value}, List.Forall₂ LazyTwin items items' →
    Value.itemsToJson items = Value.itemsToJson items'
  | [], _, .nil => rfl
  | v :: items, _, .cons h hs => by
    rw [Value.itemsToJson, Value.itemsToJson, toJson h, itemsToJson hs]

theorem entriesToJson : ∀ {entries entries' : Entries Value}, entries.keys = entries'.keys →
    List.Forall₂ LazyTwin (entries.map Prod.snd) (entries'.map Prod.snd) →
    Value.entriesToJson entries = Value.entriesToJson entries'
  | [], [], _, _ => rfl
  | (k, v) :: entries, (k', v') :: entries', hk, .cons h hs => by
    have ⟨hkey, hkeys⟩ : k = k' ∧ Entries.keys entries = Entries.keys entries' := List.cons.inj hk
    have hv : v.toJson = v'.toJson := toJson h
    rw [Value.entriesToJson, Value.entriesToJson, hv, entriesToJson hkeys hs, hkey]

end

/-- Selections of lazy twins have the same JSON. -/
theorem selectionToJson {s s' : Selection} (h : Simulation.Selected LazyTwin s s') :
    s.toJson = s'.toJson := by
  cases h with
  | none => rfl
  | some he =>
    obtain ⟨hk, hv⟩ := Entries.related_iff.1 he
    rw [Selection.toJson, Selection.toJson, entriesToJson hk hv]

/-! ### Evaluation -/

theorem sameShape {v w : Value} (h : LazyTwin v w) (a : Accessor) :
    SameShape a a LazyTwin v w := by
  cases h with
  | scalar hs => exact .scalar hs
  | array hi => exact .sequence rfl rfl (.ok hi)
  | collected hi => exact .sequence rfl rfl (.ok hi)
  | collection hi => exact .sequence rfl rfl (.ok hi)
  | failing => exact .sequence rfl rfl (.error _)
  | object hk he => exact .object (Entries.related_iff.2 ⟨hk, he⟩)
  | record hk he => exact .record (Entries.related_iff.2 ⟨hk, he⟩)
  | deferred => exact .deferred fun _ => .refl fun v _ => refl v

/-- The default normalizers realize what is lazy, and else change scalars only. -/
theorem normalize_default {v w : Value} (h : LazyTwin v w) :
    Agree Never LazyTwin (normalize Normalizer.default v) (normalize Normalizer.default w) := by
  cases h with
  | scalar hs => exact .refl fun v _ => refl v
  | array hi => exact .ok (.array hi)
  | collected hi => exact .ok (.array hi)
  | collection hi => exact .ok (.array hi)
  | failing => exact .error _
  | object hk he => exact .ok (.object hk he)
  | record hk he => exact .ok (.record hk he)
  | deferred => exact .ok .deferred

theorem simulation (ev : Evaluator)
    (hn : ev.normalizers = Normalizer.default ∨ ev.normalizers = []) :
    Simulation Never ev ev LazyTwin where
  shape h := h.sameShape ev.accessor
  null := .scalar rfl
  array hi := .array hi
  object he := .object (Entries.related_iff.1 he).1 (Entries.related_iff.1 he).2
  missing _ := .refl fun v _ => refl v
  normalize h := by
    rcases hn with hn | hn
    · rw [hn]
      exact h.normalize_default
    · rw [hn]
      exact .ok h
  recursion := rfl

end LazyTwin

/-- A query makes the same of a value and of its lazy twin: the same reports, and the same error
or the same JSON. -/
theorem apply_eq_of_lazyTwin (ev : Evaluator)
    (hn : ev.normalizers = Normalizer.default ∨ ev.normalizers = []) (query : Query) {v w : Value}
    (h : LazyTwin v w) (g : Generator) :
    (ev.apply query (.value w) g).reports = (ev.apply query (.value v) g).reports ∧
      (ev.apply query (.value w) g).generator = (ev.apply query (.value v) g).generator ∧
      (ev.apply query (.value w) g).result.map Selection.toJson =
        (ev.apply query (.value v) g).result.map Selection.toJson := by
  have hagree := (LazyTwin.simulation ev hn).apply query (.value h) g
  generalize ev.apply query (.value v) g = o at hagree ⊢
  generalize ev.apply query (.value w) g = o' at hagree ⊢
  cases hagree with
  | ok hs =>
    refine ⟨rfl, rfl, ?_⟩
    show Except.ok _ = Except.ok _
    rw [LazyTwin.selectionToJson hs]
  | error e ds g => exact ⟨rfl, rfl, rfl⟩
  | stopped hs => exact hs.elim

/-- A sub-query and a limit find the same behind a collection within a collection. -/
theorem apply_lazyTwin_nested :
    let row (n : Int64) : Value := .object [("k", .integer n)]
    let eager : Value := .array [.array [row 2, row 1]]
    let lazy : Value := .collection 0 (.ok [.collection 1 (.ok [row 2, row 1])])
    let query : Query := [⟨"rows", "0", none, some [⟨"k", "k", none, none, []⟩], [.limit 1 none]⟩]
    let ev : Evaluator := { accessor := ⟨true⟩ }
    LazyTwin eager lazy ∧
      (ev.apply query (.value lazy) ⟨0⟩).reports = (ev.apply query (.value eager) ⟨0⟩).reports ∧
      (ev.apply query (.value lazy) ⟨0⟩).result.map Selection.toJson =
        .ok (.ok (.object [("rows", .array [.object [("k", .integer 1)]])])) := by
  intro row eager lazy query ev
  have hrows : LazyTwin (.array [row 2, row 1]) (.collection 1 (.ok [row 2, row 1])) :=
    .collected (LazyTwin.refl_items _)
  have htwin : LazyTwin eager lazy := .collected (.cons hrows .nil)
  obtain ⟨hreports, -, hjson⟩ := apply_eq_of_lazyTwin ev (.inl rfl) query htwin ⟨0⟩
  refine ⟨htwin, hreports, hjson.trans ?_⟩
  rfl

end NestedQuery
