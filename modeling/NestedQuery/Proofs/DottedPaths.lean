/-
# Paths and nested sub-queries

Names joined by points and the same names with each in the sub-query of the
one before it find the same value, where objects are taken for records. The
accessor follows the path segment by segment, and the evaluator goes down an
entity at a time; both read the same entry of the same keyed value at every
name (`Value.follow_keyedAt`, `Evaluator.apply_nested`), whether that is an
object or a record. What is stored differs in the keys alone: under the path
it is one entry, and under the names a chain of objects.

An object could have the whole path for a key, and a deferred value could tell
by its entity which of the queries asks; neither is so here.

Key definitions: `Value.attributes?`, `Value.keyedAt`, `dottedText`,
`nestedText`, `Query.nested`, `nestedEntries`.
Key theorems: `parse_dottedText`, `parse_nestedText`, `Value.follow_keyedAt`,
`Evaluator.apply_nested`, `apply_dotted_eq_nested`.
-/
import Mathlib.Data.List.Nodup
import NestedQuery.Proofs.Composition
import NestedQuery.Proofs.EveryKey
import NestedQuery.Proofs.Records

namespace NestedQuery

open Text Grammar

/-! ### Texts -/

/-- Names joined by points. -/
def dottedText (front : List String) (last : String) : String := ".".intercalate (front ++ [last])

/-- Each name in front of braces with the other ones in them. -/
def nestedText : List String → String → String
  | [], last => last
  | name :: front, last => name ++ " \x7b " ++ nestedText front last ++ " \x7d"

/-- The query that goes down these names and reads the last one. -/
def Query.nested : List String → String → Query
  | [], last => [.ofPath last]
  | name :: front, last => [⟨name, name, none, some (Query.nested front last), []⟩]

/-- The objects in one another that hold a value under the last of these names. -/
def nestedEntries : List String → String → Value → Entries Value
  | [], last, v => [(last, v)]
  | name :: front, last, v => [(name, .object (nestedEntries front last v))]

variable {front : List String} {last : String}

theorem isPath_dottedText (h : ∀ name ∈ front ++ [last], IsName name) :
    IsPath (dottedText front last) :=
  ⟨front ++ [last], by simp, h, rfl⟩

theorem parse_dottedText (h : ∀ name ∈ front ++ [last], IsName name) :
    parse (dottedText front last) = .ok [.ofPath (dottedText front last)] := by
  have hpath := isPath_dottedText h
  have hparse := parse_ofPaths (List.nodup_singleton _) (List.forall_mem_singleton.2 hpath)
  rwa [String.intercalate_singleton] at hparse

theorem not_blank_of_isName {name : String} (h : IsName name) : ¬ Blank name.toList := by
  obtain ⟨⟨c, hc, -⟩, hparts⟩ := h
  intro hblank
  have hmem : c ∈ name.toList := List.mem_of_mem_head? hc
  have hbare := not_isBlank_of_isWordPart (hparts c hmem)
  rw [hblank c hmem] at hbare
  cases hbare

theorem not_blank_nestedText (h : ∀ name ∈ front ++ [last], IsName name) :
    ¬ Blank (nestedText front last).toList := by
  cases front with
  | nil => exact not_blank_of_isName (h last List.mem_cons_self)
  | cons name front =>
    intro hblank
    rw [nestedText, String.append_assoc, String.append_assoc, String.toList_append,
      blank_append] at hblank
    exact not_blank_of_isName (h name List.mem_cons_self) hblank.1

theorem parse_nestedText (h : ∀ name ∈ front ++ [last], IsName name) :
    parse (nestedText front last) = .ok (Query.nested front last) := by
  induction front with
  | nil =>
    have hlast : IsPath last := isPath_of_isName (h last List.mem_cons_self)
    have hparse := parse_ofPaths (List.nodup_singleton _) (List.forall_mem_singleton.2 hlast)
    rwa [String.intercalate_singleton] at hparse
  | cons name front ih =>
    obtain ⟨hname, hothers⟩ := List.forall_mem_cons.1 h
    have hblank : Blank [' '] := by decide
    have htext : (nestedText (name :: front) last).toList =
        name.toList ++ ([' '] ++ '\x7b' :: ([' '] ++ ((nestedText front last).toList ++
          ([' '] ++ ['\x7d'])))) := by
      simp [nestedText, String.toList_append]
    exact parse_braced hname hblank hblank hblank htext (not_blank_nestedText hothers) (ih hothers)

/-! ### Reading -/

namespace Value

/-- The entries of an object or the attributes of a record. -/
def attributes? : Value → Option (Entries Value)
  | object entries => some entries
  | record _ _ attributes => some attributes
  | _ => none

/-- The entries of the keyed value that is reached from a keyed one through these names, if there is
a keyed value at every one of them. -/
def keyedAt : List String → Value → Option (Entries Value)
  | [], v => v.attributes?
  | name :: front, v =>
    v.attributes?.bind fun entries => (Entries.get? entries name).bind (keyedAt front)

variable {v : Value} {entries : Entries Value}

theorem attributes?_eq_some_iff : v.attributes? = some entries ↔
    v = .object entries ∨ ∃ handle type, v = .record handle type entries := by
  cases v <;> simp [attributes?]

theorem read_field (h : v.attributes? = some entries) (name : String) :
    v.read (.field name) = .ok (entries.get? name) := by
  obtain rfl | ⟨handle, type, rfl⟩ := attributes?_eq_some_iff.1 h <;> rfl

theorem exists_attributes (h : v.keyedAt front = some entries) :
    ∃ attributes, v.attributes? = some attributes := by
  cases front with
  | nil => exact ⟨entries, h⟩
  | cons name front =>
    obtain ⟨attributes, hattributes, -⟩ := Option.bind_eq_some_iff.1 h
    exact ⟨attributes, hattributes⟩

/-- The names are followed to the entry of the last one. -/
theorem follow_keyedAt (h : v.keyedAt front = some entries) :
    v.follow ((front ++ [last]).map .field) = .ok (entries.get? last) := by
  induction front generalizing v with
  | nil =>
    simp only [List.nil_append, List.map_cons, List.map_nil, follow, read_field h]
    cases entries.get? last <;> rfl
  | cons name front ih =>
    obtain ⟨attributes, hattributes, h⟩ := Option.bind_eq_some_iff.1 h
    obtain ⟨w, hw, h⟩ := Option.bind_eq_some_iff.1 h
    rw [List.cons_append, List.map_cons, follow, read_field hattributes, hw]
    exact ih h

end Value

/-! ### Evaluating -/

namespace Evaluator

variable {ev : Evaluator} {v w : Value} {entries attributes : Entries Value} {path : String}

theorem hasProperties_of_attributes? (h : v.attributes? = some attributes) :
    Root.HasProperties (.value v) := by
  rintro _ ⟨rfl⟩
  obtain rfl | ⟨handle, type, rfl⟩ := Value.attributes?_eq_some_iff.1 h <;> rfl

/-- A keyed value is read by the path, unless that is a key with a point in it. -/
theorem locate_keyed (hv : v.attributes? = some attributes) {entity : Entity}
    (hp : IsPath entity.path)
    (hk : '.' ∈ entity.path.toList → v = .object attributes → entity.path ∉ attributes.keys) :
    ev.locate v entity = some <$> Eval.ofExcept (ev.accessor.getValue v entity.path) := by
  obtain rfl | ⟨handle, type, rfl⟩ := Value.attributes?_eq_some_iff.1 hv
  · have hsame : ∀ segment, (Value.object attributes).read segment =
        (Value.record 0 "" attributes).read segment := fun _ => rfl
    show some <$> Eval.ofExcept (ev.accessor.getKey (.object attributes) entity.path) = _
    rw [ev.accessor.getKey_object_eq_getValue_record hp (fun hdot => hk hdot rfl) 0 "",
      ev.accessor.getValue_congr hsame]
  · rfl

/-- The entry of the last name, prepared; or what the path reads as if there is none. -/
def leafValue (ev : Evaluator) (entries : Entries Value) (last path : String) :
    Except EvalError Value :=
  ((entries.get? last).elim (ev.accessor.missing path) .ok).bind fun w =>
    (normalize ev.normalizers w).bind Value.realize

theorem leafValue_of_some (h : entries.get? last = some w) (path : String) :
    ev.leafValue entries last path = (normalize ev.normalizers w).bind Value.realize := by
  rw [leafValue, h]
  rfl

theorem leafValue_of_strict (h : entries.get? last = none) (hs : ev.accessor.strict)
    (path : String) : ev.leafValue entries last path = .error (.noSuchProperty path) := by
  rw [leafValue, h, Option.elim_none, Accessor.missing, hs]
  rfl

/-- A missing name reads as `null`, which the steps of the default chain leave. -/
theorem leafValue_of_lenient (hn : ∀ step ∈ ev.normalizers, step ∈ Normalizer.default)
    (h : entries.get? last = none) (hs : ev.accessor.strict = false) (path : String) :
    ev.leafValue entries last path = .ok .null := by
  have hnull : normalize ev.normalizers .null = .ok .null := by
    refine normalize_eq_self fun step hstep => ?_
    rcases List.mem_pair.1 (hn step hstep) with rfl | rfl <;> rfl
  rw [leafValue, h, Option.elim_none, Accessor.missing, hs]
  show (normalize ev.normalizers .null).bind Value.realize = _
  rw [hnull]
  rfl

/-- What an entity without a sub-query makes of what it found, which is not deferred. -/
theorem answer_ofPath_of_locate {found : Except EvalError Value}
    (hlocate : ev.locate v (.ofPath path) = some <$> Eval.ofExcept found)
    (hfound : ∀ handle compute, found ≠ .ok (.deferred handle compute)) :
    ev.answer (.value v) (.ofPath path) =
      Eval.ofExcept (found.bind fun w => (normalize ev.normalizers w).bind Value.realize) := by
  rw [answer, hlocate]
  cases found with
  | error e => rfl
  | ok w =>
    have hprepare : ev.prepare (.ofPath path) w = normalize ev.normalizers w := by
      cases w with
      | deferred handle compute => exact (hfound handle compute rfl).elim
      | _ => rfl
    show ev.evaluate (.ofPath path) w = Eval.ofExcept ((normalize ev.normalizers w).bind _)
    rw [evaluate_eq, hprepare]
    cases normalize ev.normalizers w with
    | error e => rfl
    | ok u =>
      show ev.finish (.ofPath path) u = Eval.ofExcept u.realize
      unfold finish
      exact bind_pure _

/-- What an entity makes of names that lead through keyed values to a value that is not deferred. -/
theorem answer_keyedAt (hp : IsPath path)
    (hpath : parsePath path = .ok ((front ++ [last]).map .field))
    (hk : '.' ∈ path.toList →
      ∀ attributes : Entries Value, v = .object attributes → path ∉ attributes.keys)
    (hv : v.keyedAt front = some entries)
    (hlast : ∀ handle compute, entries.get? last ≠ some (.deferred handle compute)) :
    ev.answer (.value v) (.ofPath path) = Eval.ofExcept (ev.leafValue entries last path) := by
  obtain ⟨attributes, hattributes⟩ := Value.exists_attributes hv
  have hvalue : ev.accessor.getValue v path =
      (entries.get? last).elim (ev.accessor.missing path) .ok := by
    rw [Accessor.getValue, hpath]
    simp only [Value.follow_keyedAt hv]
    cases entries.get? last <;> rfl
  have hlocate : ev.locate v (.ofPath path) =
      some <$> Eval.ofExcept (ev.accessor.getValue v path) :=
    locate_keyed hattributes hp fun hdot hobject => hk hdot attributes hobject
  rw [hvalue] at hlocate
  refine answer_ofPath_of_locate hlocate fun handle compute hfound => ?_
  cases hget : entries.get? last with
  | some w =>
    rw [hget] at hfound
    exact hlast handle compute (hget.trans (congrArg some (Except.ok.inj hfound)))
  | none =>
    rw [hget] at hfound
    have hmissing : ev.accessor.missing path = .ok (.deferred handle compute) := hfound
    unfold Accessor.missing at hmissing
    split at hmissing <;> cases hmissing

/-- The steps of the default chain leave keyed values as they are. -/
theorem prepare_keyed (hn : ∀ step ∈ ev.normalizers, step ∈ Normalizer.default)
    (hv : v.attributes? = some attributes) (entity : Entity) : ev.prepare entity v = .ok v := by
  have hleaves : ev.LeavesKeyed attributes := leavesKeyed_of_mem_default hn
  obtain rfl | ⟨handle, type, rfl⟩ := Value.attributes?_eq_some_iff.1 hv
  · exact hleaves.1
  · exact hleaves.2 handle type

/-- Where objects are taken for records a sub-query is applied to the keyed value itself. -/
theorem evaluate_keyed (hd : ev.recursion = .direct)
    (hn : ∀ step ∈ ev.normalizers, step ∈ Normalizer.default)
    (hv : v.attributes? = some attributes) {name : String} {query : Query} (hq : query ≠ []) :
    ev.evaluate ⟨name, name, none, some query, []⟩ v =
      Selection.toValue <$> ev.apply query (.value v) := by
  let entity : Entity := ⟨name, name, none, some query, []⟩
  have hdescend : ev.descend entity v = Selection.toValue <$> ev.select query v := by
    obtain rfl | ⟨handle, type, rfl⟩ := Value.attributes?_eq_some_iff.1 hv
    · simp [descend, entity, hq, project, hd]
    · simp [descend, entity, hq, project]
  have hfinish : ∀ s : Selection, ev.finish entity s.toValue = pure s.toValue := by
    intro s
    cases s <;> rfl
  rw [evaluate_of_prepare ev (prepare_keyed hn hv entity), hdescend]
  simp only [map_eq_pure_bind, bind_assoc, pure_bind, hfinish]
  rfl

/-- What the last name finds is what the nested query stores in its objects. -/
theorem apply_nested (hd : ev.recursion = .direct)
    (hn : ∀ step ∈ ev.normalizers, step ∈ Normalizer.default)
    (hnames : ∀ name ∈ front ++ [last], IsName name) (hv : v.keyedAt front = some entries)
    (hlast : ∀ handle compute, entries.get? last ≠ some (.deferred handle compute)) :
    ev.apply (Query.nested front last) (.value v) =
      (fun w => some (nestedEntries front last w)) <$>
        Eval.ofExcept (ev.leafValue entries last last) := by
  induction front generalizing v with
  | nil =>
    have hname : IsName last := hnames last List.mem_cons_self
    have hr : Root.HasProperties (.value v) := hasProperties_of_attributes? hv
    have hparse : parsePath last = .ok (([] ++ [last]).map .field) := parsePath_of_isName hname
    rw [Query.nested, apply_singleton hr, answer_keyedAt (isPath_of_isName hname) hparse
      (fun hdot => (not_mem_of_isName hname hdot).elim) hv hlast]
    rfl
  | cons name front ih =>
    obtain ⟨hname, hothers⟩ := List.forall_mem_cons.1 hnames
    obtain ⟨attributes, hattributes, hv⟩ := Option.bind_eq_some_iff.1 hv
    obtain ⟨w, hw, hwv⟩ := Option.bind_eq_some_iff.1 hv
    let entity : Entity := ⟨name, name, none, some (Query.nested front last), []⟩
    have hr : Root.HasProperties (.value v) := hasProperties_of_attributes? hattributes
    have hvalue : ev.accessor.getValue v name = .ok w := by
      rw [Accessor.getValue, parsePath_of_isName hname]
      simp only [Value.follow, Value.read_field hattributes, hw]
    have hlocate : ev.locate v entity = some <$> Eval.ofExcept (.ok w) := by
      rw [← hvalue]
      exact locate_keyed hattributes (isPath_of_isName hname) fun hdot =>
        (not_mem_of_isName hname hdot).elim
    obtain ⟨inner, hinner⟩ := Value.exists_attributes hwv
    have hne : Query.nested front last ≠ [] := by
      cases front <;> exact List.cons_ne_nil _ _
    have hanswer : ev.answer (.value v) entity =
        Selection.toValue <$> ev.apply (Query.nested front last) (.value w) := by
      rw [answer, hlocate]
      exact evaluate_keyed hd hn hinner hne
    rw [Query.nested, apply_singleton hr, hanswer, ih hothers hwv]
    simp only [map_eq_pure_bind, bind_assoc, pure_bind]
    rfl

end Evaluator

/-- **Paths and nested sub-queries agree.** Where objects are taken for records, and each of some
names but the last leads from an object or a record to another, both texts are queries: the names
joined by points, and each of them in front of braces with the other ones in them. If the last name
is there, and its value not deferred, the two queries store the same value, or fail with the same
error: the one under the path, the other under the last name in the objects of the other ones. If
it is missing, both store `null`, or both fail for want of a property if the accessor is strict. -/
theorem apply_dotted_eq_nested (ev : Evaluator) (hd : ev.recursion = .direct)
    (hn : ∀ step ∈ ev.normalizers, step ∈ Normalizer.default)
    (hnames : ∀ name ∈ front ++ [last], IsName name) {root : Value} {entries : Entries Value}
    (hroot : root.keyedAt front = some entries)
    (hkey : ∀ attributes : Entries Value, root = .object attributes →
      dottedText front last ∉ attributes.keys)
    (hlast : ∀ handle compute, entries.get? last ≠ some (.deferred handle compute))
    (g : Generator) :
    ∃ dotted nested, parse (dottedText front last) = .ok dotted ∧
      parse (nestedText front last) = .ok nested ∧
      let byPath := (ev.apply dotted (.value root) g).result
      let byNames := (ev.apply nested (.value root) g).result
      (∀ v, entries.get? last = some v →
        let stored := (normalize ev.normalizers v).bind Value.realize
        byPath = stored.map (fun w => some [(dottedText front last, w)]) ∧
        byNames = stored.map fun w => some (nestedEntries front last w)) ∧
      (entries.get? last = none →
        (ev.accessor.strict = false →
          byPath = .ok (some [(dottedText front last, .null)]) ∧
          byNames = .ok (some (nestedEntries front last .null))) ∧
        (ev.accessor.strict →
          byPath = .error (.noSuchProperty (dottedText front last)) ∧
          byNames = .error (.noSuchProperty last))) := by
  let path := dottedText front last
  obtain ⟨attributes, hattributes⟩ := Value.exists_attributes hroot
  have hr : Root.HasProperties (.value root) := Evaluator.hasProperties_of_attributes? hattributes
  have hparse : parsePath path = .ok ((front ++ [last]).map .field) := by
    have hnonempty : front ++ [last] ≠ [] := by simp
    have hdotted : dotNames path = front ++ [last] := dotNames_intercalate hnonempty hnames
    rw [parsePath_of_isPath (isPath_dottedText hnames), hdotted]
  have hanswer : ev.answer (.value root) (.ofPath path) =
      Eval.ofExcept (ev.leafValue entries last path) :=
    Evaluator.answer_keyedAt (isPath_dottedText hnames) hparse (fun _ => hkey) hroot hlast
  have hpath : (ev.apply [.ofPath path] (.value root) g).result =
      (ev.leafValue entries last path).map fun w => some [(path, w)] := by
    rw [Evaluator.apply_singleton hr, hanswer, Eval.map_result]
    rfl
  have hnested : (ev.apply (Query.nested front last) (.value root) g).result =
      (ev.leafValue entries last last).map fun w => some (nestedEntries front last w) := by
    rw [Evaluator.apply_nested hd hn hnames hroot hlast, Eval.map_result]
    rfl
  refine ⟨_, _, parse_dottedText hnames, parse_nestedText hnames, ?_⟩
  dsimp only
  rw [hpath, hnested]
  refine ⟨fun v hv => ?_, fun hmissing => ⟨fun hlenient => ?_, fun hstrict => ?_⟩⟩
  · rw [Evaluator.leafValue_of_some hv, Evaluator.leafValue_of_some hv]
    exact ⟨rfl, rfl⟩
  · rw [Evaluator.leafValue_of_lenient hn hmissing hlenient,
      Evaluator.leafValue_of_lenient hn hmissing hlenient]
    exact ⟨rfl, rfl⟩
  · rw [Evaluator.leafValue_of_strict hmissing hstrict,
      Evaluator.leafValue_of_strict hmissing hstrict]
    exact ⟨rfl, rfl⟩

/-- A record in an object and an object in the record: the last name is there, or it is not. -/
theorem apply_dotted_eq_nested_record :
    let inner : Entries Value := [("c", .integer 1)]
    let root : Value := .object [("a", .record 0 "R" [("b", .object inner)])]
    let lenient : Evaluator := { recursion := .direct }
    let strict : Evaluator := { accessor := ⟨true⟩, recursion := .direct }
    (∀ step ∈ lenient.normalizers, step ∈ Normalizer.default) ∧
      (∀ name ∈ ["a", "b"] ++ ["c"], IsName name) ∧ (∀ name ∈ ["a", "b"] ++ ["d"], IsName name) ∧
      root.keyedAt ["a", "b"] = some inner ∧
      (∃ dotted nested, parse "a.b.c" = .ok dotted ∧
        parse "a \x7b b \x7b c \x7d \x7d" = .ok nested ∧
        (strict.apply dotted (.value root) ⟨0⟩).result = .ok (some [("a.b.c", .integer 1)]) ∧
        (strict.apply nested (.value root) ⟨0⟩).result =
          .ok (some [("a", .object [("b", .object [("c", .integer 1)])])])) ∧
      (∃ dotted nested, parse "a.b.d" = .ok dotted ∧
        parse "a \x7b b \x7b d \x7d \x7d" = .ok nested ∧
        (lenient.apply dotted (.value root) ⟨0⟩).result = .ok (some [("a.b.d", .null)]) ∧
        (lenient.apply nested (.value root) ⟨0⟩).result =
          .ok (some [("a", .object [("b", .object [("d", .null)])])])) ∧
      ∃ dotted nested, parse "a.b.d" = .ok dotted ∧
        parse "a \x7b b \x7b d \x7d \x7d" = .ok nested ∧
        (strict.apply dotted (.value root) ⟨0⟩).result = .error (.noSuchProperty "a.b.d") ∧
        (strict.apply nested (.value root) ⟨0⟩).result = .error (.noSuchProperty "d") := by
  intro inner root lenient strict
  have hsteps : ∀ step ∈ lenient.normalizers, step ∈ Normalizer.default := fun _ h => h
  have hc : ∀ name ∈ ["a", "b"] ++ ["c"], IsName name := by decide
  have hd : ∀ name ∈ ["a", "b"] ++ ["d"], IsName name := by decide
  have hroot : root.keyedAt ["a", "b"] = some inner := rfl
  have hkey : ∀ {last : String}, dottedText ["a", "b"] last ≠ "a" →
      ∀ attributes : Entries Value, root = .object attributes →
        dottedText ["a", "b"] last ∉ attributes.keys := by
    intro last hne attributes hobject hmem
    rw [← Value.object.inj hobject] at hmem
    exact hne (List.mem_singleton.1 hmem)
  have hfound : ∀ handle compute, inner.get? "c" ≠ some (.deferred handle compute) := nofun
  have hmissing : ∀ handle compute, inner.get? "d" ≠ some (.deferred handle compute) := nofun
  have hdotted : dottedText ["a", "b"] "c" = "a.b.c" := by
    simp [dottedText, String.intercalate_cons_cons]
  have hdotted' : dottedText ["a", "b"] "d" = "a.b.d" := by
    simp [dottedText, String.intercalate_cons_cons]
  have hnested : nestedText ["a", "b"] "c" = "a \x7b b \x7b c \x7d \x7d" := by simp [nestedText]
  have hnested' : nestedText ["a", "b"] "d" = "a \x7b b \x7b d \x7d \x7d" := by simp [nestedText]
  refine ⟨hsteps, hc, hd, hroot, ?_, ?_, ?_⟩
  · obtain ⟨dotted, nested, hparse, hparse', hthere, -⟩ :=
      apply_dotted_eq_nested strict rfl hsteps hc hroot
        (hkey (by rw [hdotted]; decide)) hfound ⟨0⟩
    rw [hdotted] at hparse hthere
    rw [hnested] at hparse'
    have hstored := hthere (.integer 1) rfl
    exact ⟨dotted, nested, hparse, hparse', hstored.1, hstored.2⟩
  · obtain ⟨dotted, nested, hparse, hparse', -, hnone⟩ :=
      apply_dotted_eq_nested lenient rfl hsteps hd hroot
        (hkey (by rw [hdotted']; decide)) hmissing ⟨0⟩
    rw [hdotted'] at hparse hnone
    rw [hnested'] at hparse'
    have hnull := (hnone rfl).1 rfl
    exact ⟨dotted, nested, hparse, hparse', hnull.1, hnull.2⟩
  · obtain ⟨dotted, nested, hparse, hparse', -, hnone⟩ :=
      apply_dotted_eq_nested strict rfl hsteps hd hroot
        (hkey (by rw [hdotted']; decide)) hmissing ⟨0⟩
    rw [hdotted'] at hparse hnone
    rw [hnested'] at hparse'
    have hfails := (hnone rfl).2 rfl
    exact ⟨dotted, nested, hparse, hparse', hfails.1, hfails.2⟩

end NestedQuery
