/-
# How queries fail on JSON

What an evaluation makes of plain values is plain again. So there are three
ways to fail: a modifier refuses what it is run on, a strict
accessor finds no property, or a sort finds that the order of its keys
contradicts itself. Malformed paths are no fourth one, since every path that a
parsed query holds is read as the names between its points.

The last way is open only to documents with two different binary numbers that
tie with a whole number between them, and there are queries and documents that
go it (`exists_contradictory_sort`).

Key definitions: `Json.Conflicting`, `Modifier.Within`, `Entity.Within`,
`IsRefused`.
Key theorems: `Json.preordered_numbers`, `Evaluator.select_meets`,
`apply_parsed_ofJson`.
-/
import Mathlib.Tactic
import NestedQuery.Proofs.ProjectedSort
import NestedQuery.Proofs.PropertyPath
import NestedQuery.Proofs.SortComposition
import NestedQuery.Proofs.Strictness

namespace NestedQuery

/-! ### The numbers of a document -/

/-- Two different binary numbers in the document tie with a whole number in it. -/
def Json.Conflicting (json : Json) : Prop :=
  ∃ a b c : Json, a.OccursIn json ∧ b.OccursIn json ∧ c.OccursIn json ∧
    Value.FallTogether (.ofJson a) (.ofJson b) (.ofJson c)

theorem Binary64.ofParts_ne_nan (negative : Bool) (mantissa : ℕ) (exponent : ℤ) :
    ofParts negative mantissa exponent ≠ .nan := by
  unfold ofParts
  split <;> nofun

theorem Binary64.ofInt_ne_nan (n : ℤ) : ofInt n ≠ .nan := by
  unfold ofInt ofRatio
  extract_lets exponent mantissa
  split
  · nofun
  · split <;> exact ofParts_ne_nan _ _ _

/-- Each number of a document is one. -/
theorem Value.ofJson_ne_nan (json : Json) : ofJson json ≠ .float .nan := by
  cases json with
  | integer n =>
    show ofInt n ≠ _
    unfold ofInt
    split
    · nofun
    · exact fun h => Binary64.ofInt_ne_nan n (float.inj h)
  | _ => nofun

/-- Numbers are in order unless some of them conflict. -/
theorem Json.preordered_numbers {json : Json} (h : ¬ json.Conflicting) :
    Value.Preordered json.numbers := by
  rintro _ ⟨-, a, ha, rfl⟩ _ ⟨-, b, hb, rfl⟩ _ ⟨-, c, hc, rfl⟩ hab hbc
  exact Value.order_isLE_trans (Value.ofJson_ne_nan a) (Value.ofJson_ne_nan b)
    (Value.ofJson_ne_nan c) hab hbc fun hfall => h ⟨a, b, c, ha, hb, hc, hfall⟩

variable {numbers : Set Value}

/-- Plain values are in order if their numbers are. -/
theorem Value.Preordered.plain (h : Preordered numbers) :
    Preordered {v | v.Plain numbers} := by
  have hnumber : ∀ {v : Value}, v.Plain numbers → v.rank = 2 → v ∈ numbers := by
    intro v hv hrank
    cases hv with
    | scalar hs hnumber => exact hnumber hrank
    | array => cases hrank
    | object => cases hrank
  exact fun a ha b hb c hc hab hbc => order_isLE_trans_but_numbers hab hbc fun ra rb rc =>
    h a (hnumber ha ra) b (hnumber hb rb) c (hnumber hc rc) hab hbc

/-! ### Reading -/

variable {Fail : EvalError → Prop} {v : Value}

namespace Accessor

variable {accessor : Accessor}

/-- If the accessor is strict, properties may be missing. -/
def Within (Fail : EvalError → Prop) (accessor : Accessor) : Prop :=
  accessor.strict → ∀ path, Fail (.noSuchProperty path)

theorem missing_meets (ha : accessor.Within Fail) (path : String) :
    Meets Fail (Value.Plain numbers) (accessor.missing path) := by
  unfold missing
  split
  · next hs => exact .error (ha hs path)
  · exact .ok Value.plain_null

theorem getValue_meets (ha : accessor.Within Fail) {path : String} (hp : IsPath path)
    (hv : v.Plain numbers) : Meets Fail (Value.Plain numbers) (accessor.getValue v path) := by
  obtain ⟨found, hfollow, hfound⟩ := hv.follow ((dotNames path).map .field)
  unfold getValue
  simp only [parsePath_of_isPath hp, hfollow]
  cases found with
  | none => exact missing_meets ha path
  | some w => exact .ok (hfound w rfl)

theorem getKey_meets (ha : accessor.Within Fail) {path : String} (hp : IsPath path)
    (hv : v.Plain numbers) : Meets Fail (Value.Plain numbers) (accessor.getKey v path) := by
  obtain ⟨found, hread, hfound⟩ := hv.read (.field path)
  unfold getKey
  simp only [hread]
  cases found with
  | some w => exact .ok (hfound w rfl)
  | none =>
    dsimp only
    split
    · exact getValue_meets ha hp hv
    · exact missing_meets ha path

end Accessor

/-! ### Modifiers -/

/-- A modifier was run on a value that it does not take. -/
def IsRefused (e : EvalError) : Prop := ∃ modifier found, e = .wrongType modifier found

/-- The modifier may refuse values, unless it is without a meaning, and sorts by names joined by
points; a sort may also find that the order of these numbers contradicts itself. -/
def Modifier.Within (Fail : EvalError → Prop) (numbers : Set Value) : Modifier → Prop
  | sort terms =>
    (∀ found, Fail (.wrongType "sort" found)) ∧
      (¬ Value.Preordered numbers → Fail .contradictoryOrder) ∧
      ∀ term ∈ terms, IsPath term.property
  | limit _ _ => ∀ found, Fail (.wrongType "limit" found)
  | randomize => ∀ found, Fail (.wrongType "randomize" found)
  | generic _ _ => True

section

variable {accessor : Accessor}

variable {terms : List SortTerm} {items : List Value}

theorem sortKeys_meets (ha : accessor.Within Fail) (ht : ∀ term ∈ terms, IsPath term.property)
    (hv : v.Plain numbers) : Meets Fail (fun _ => True) (sortKeys accessor v terms) := by
  induction terms with
  | nil => exact .ok trivial
  | cons term terms ih =>
    obtain ⟨hterm, hterms⟩ := List.forall_mem_cons.1 ht
    have hkey := Accessor.getValue_meets ha hterm hv
    unfold sortKeys
    generalize accessor.getValue v term.property = x at hkey
    cases hkey with
    | error he => exact .error he
    | ok _ => exact (ih hterms).map fun _ => trivial

theorem keyed_meets (ha : accessor.Within Fail) (ht : ∀ term ∈ terms, IsPath term.property)
    (hi : ∀ v ∈ items, v.Plain numbers) :
    Meets Fail (fun _ => True) (keyed accessor terms items) := by
  induction items with
  | nil => exact .ok trivial
  | cons item items ih =>
    obtain ⟨hitem, hitems⟩ := List.forall_mem_cons.1 hi
    have hkeys := sortKeys_meets ha ht hitem
    unfold keyed
    generalize sortKeys accessor item terms = x at hkeys
    cases hkeys with
    | error he => exact .error he
    | ok _ => exact (ih hitems).map fun _ => trivial

/-- The keys of plain values are in order if their numbers are. -/
theorem ordered_of_plain (ht : ∀ term ∈ terms, IsPath term.property)
    (hi : ∀ v ∈ items, v.Plain numbers) (h : Value.Preordered numbers) :
    Ordered accessor terms items := by
  refine fun term hterm => h.plain.mono ?_
  rintro key ⟨item, hitem, hkey⟩
  have ha : accessor.Within fun _ => True := fun _ _ => trivial
  have hmeets := Accessor.getValue_meets ha (ht term hterm) (hi item hitem)
  rw [hkey] at hmeets
  cases hmeets with
  | ok hplain => exact hplain

theorem sortItems_meets (ha : accessor.Within Fail)
    (hf : ¬ Value.Preordered numbers → Fail .contradictoryOrder)
    (ht : ∀ term ∈ terms, IsPath term.property) (hi : ∀ v ∈ items, v.Plain numbers) :
    Meets Fail (fun sorted => ∀ v ∈ sorted, v.Plain numbers) (sortItems accessor terms items) := by
  cases hsorted : sortItems accessor terms items with
  | ok sorted => exact .ok fun v hv => hi v ((sortItems_perm hsorted).mem_iff.1 hv)
  | error e =>
    refine .error ?_
    have hkeys := keyed_meets ha ht hi
    cases hkeyed : keyed accessor terms items with
    | error e' =>
      rw [sortItems, hkeyed] at hsorted
      obtain rfl : e' = e := Except.error.inj hsorted
      rw [hkeyed] at hkeys
      cases hkeys with
      | error he => exact he
    | ok pairs =>
      have hread : Readable accessor terms items := exists_keyed_iff.1 ⟨pairs, hkeyed⟩
      rw [hread.eq_contradictoryOrder hsorted]
      refine hf fun hnumbers => ?_
      obtain ⟨sorted, hok⟩ := hread.exists_sortItems (ordered_of_plain ht hi hnumbers)
      rw [hok] at hsorted
      cases hsorted

theorem sequence_meets {modifier : String} (hf : ∀ found, Fail (.wrongType modifier found))
    (hv : v.Plain numbers) :
    Meets Fail (fun items => ∀ v ∈ items, v.Plain numbers) (v.sequence modifier) := by
  cases hv with
  | scalar hs _ =>
    rw [Value.sequence_scalar hs]
    exact .error (hf _)
  | array hitems => exact .ok hitems
  | object hentries => exact .ok (List.forall_mem_map.2 hentries)

theorem mem_of_mem_slice {α : Type} {offset : Nat} {count : Option Nat} {items : List α} {x : α}
    (h : x ∈ slice offset count items) : x ∈ items := by
  cases count with
  | none => exact List.mem_of_mem_drop h
  | some n => exact List.mem_of_mem_drop (List.mem_of_mem_take h)

theorem slice_meets (hf : ∀ found, Fail (.wrongType "limit" found)) (offset : Nat)
    (count : Option Nat) (hv : v.Plain numbers) :
    Meets Fail (Value.Plain numbers) (v.slice offset count) := by
  cases hv with
  | scalar hs _ =>
    rw [Value.slice_scalar hs]
    exact .error (hf _)
  | array hitems => exact .ok (.array fun v hv => hitems v (mem_of_mem_slice hv))
  | object hentries => exact .ok (.object fun e he => hentries e (mem_of_mem_slice he))

theorem runModifier_meets (ha : accessor.Within Fail) (aliasName : String) {m : Modifier}
    (hm : m.Within Fail numbers) (hv : v.Plain numbers) :
    Eval.Meets Fail (Value.Plain numbers) (runModifier accessor aliasName m v) := by
  cases m with
  | randomize =>
    refine (Eval.Meets.ofExcept (sequence_meets hm hv)).bind fun hitems => ?_
    refine (Eval.Meets.shuffle hitems).bind fun hshuffled => ?_
    exact (Eval.Meets.report _).bind fun _ => .pure (.array hshuffled)
  | sort terms =>
    refine (Eval.Meets.ofExcept (sequence_meets hm.1 hv)).bind fun hitems => ?_
    refine (Eval.Meets.reportAll _).bind fun _ => ?_
    refine (Eval.Meets.ofExcept (sortItems_meets ha hm.2.1 hm.2.2 hitems)).bind fun hsorted => ?_
    exact (Eval.Meets.report _).bind fun _ => .pure (.array hsorted)
  | limit offset count => exact .ofExcept (slice_meets hm offset count hv)
  | generic keyword payload => exact (Eval.Meets.report _).bind fun _ => .pure hv

theorem runModifiers_meets (ha : accessor.Within Fail) (aliasName : String)
    {modifiers : List Modifier} (hm : ∀ m ∈ modifiers, m.Within Fail numbers) (hv : v.Plain numbers) :
    Eval.Meets Fail (Value.Plain numbers) (runModifiers accessor aliasName modifiers v) := by
  induction modifiers generalizing v with
  | nil => exact .pure hv
  | cons m modifiers ih =>
    obtain ⟨hfirst, hothers⟩ := List.forall_mem_cons.1 hm
    exact (runModifier_meets ha aliasName hfirst hv).bind (ih hothers)

end

/-! ### Entities -/

/-- The entity's value is found under names joined by points, and so are the values that it is
sorted by. -/
def Entity.Within (Fail : EvalError → Prop) (numbers : Set Value) (entity : Entity) : Prop :=
  IsPath entity.path ∧ ∀ m ∈ entity.modifiers, m.Within Fail numbers

namespace Evaluator

variable {ev : Evaluator} {entity : Entity}

theorem locate_meets (ha : ev.accessor.Within Fail) (hp : IsPath entity.path)
    (hv : v.Plain numbers) :
    Eval.Meets Fail (fun found => ∀ w ∈ found, w.Plain numbers) (ev.locate v entity) := by
  have hread := Accessor.getKey_meets ha hp hv
  have hsome : Eval.Meets Fail (fun found => ∀ w ∈ found, w.Plain numbers)
      (some <$> Eval.ofExcept (ev.accessor.getKey v entity.path)) :=
    (Eval.Meets.ofExcept hread).map fun hw => by simpa using hw
  cases hv with
  | scalar hs _ =>
    rw [locate_scalar ev hs]
    exact (Eval.Meets.report _).bind fun _ => .pure (by simp)
  | array => exact hsome
  | object => exact hsome

theorem prepare_meets (hn : ev.normalizers = Normalizer.default) (entity : Entity)
    (hv : v.Plain numbers) : Meets Fail (Value.Plain numbers) (ev.prepare entity v) := by
  unfold prepare
  rw [hn]
  cases hv with
  | scalar hs hnumber =>
    obtain rfl | ⟨b, rfl⟩ | ⟨n, rfl⟩ | ⟨x, rfl⟩ | ⟨s, rfl⟩ | ⟨t, rfl⟩ := Value.eq_of_isScalar hs
    case _ | _ | _ | _ | _ => exact .ok (.scalar rfl hnumber)
    -- the text of a date
    case _ => exact .ok (.scalar rfl nofun)
  | array hitems => exact .ok (.array hitems)
  | object hentries => exact .ok (.object hentries)

theorem finish_meets (ha : ev.accessor.Within Fail)
    (hm : ∀ m ∈ entity.modifiers, m.Within Fail numbers) (hv : v.Plain numbers) :
    Eval.Meets Fail (Value.Plain numbers) (ev.finish entity v) := by
  unfold finish
  rw [hv.realize]
  exact (Eval.Meets.ofExcept (.ok hv)).bind (runModifiers_meets ha entity.aliasName hm)

theorem project_meets {subQuery : Value → Eval Selection}
    (hq : ∀ {v}, v.Plain numbers → Eval.Meets Fail (Selection.Plain numbers) (subQuery v))
    (hv : v.Plain numbers) :
    Eval.Meets Fail (Value.Plain numbers) (ev.project subQuery v) := by
  have hvalue : ∀ {v : Value}, v.Plain numbers →
      Eval.Meets Fail (Value.Plain numbers) (Selection.toValue <$> subQuery v) :=
    fun hv => (hq hv).map Selection.Plain.toValue
  have hself := hvalue hv
  cases hv with
  | scalar hs _ =>
    rw [project_scalar ev hs]
    exact hself
  | array hitems => exact (Eval.Meets.forEach fun w hw => hvalue (hitems w hw)).map .array
  | object hentries =>
    unfold project
    cases ev.recursion with
    | direct => exact hself
    | elementWise =>
      refine (Eval.Meets.forEach fun e he => ?_).map .object
      exact (hq (hentries e he)).map Selection.Plain.toValue

mutual

/-- What a query selects from a plain root is plain. -/
theorem select_meets (ha : ev.accessor.Within Fail) (hn : ev.normalizers = Normalizer.default) :
    ∀ (query : List Entity) {v : Value}, (∀ e ∈ Query.preorder query, e.Within Fail numbers) →
      v.Plain numbers → Eval.Meets Fail (Selection.Plain numbers) (ev.select query v)
  | [], _, _, _ => by
    unfold select
    exact .pure (by simp [Selection.Plain])
  | entity :: query, v, hq, hv => by
    obtain ⟨⟨hentity, hchildren⟩, hothers⟩ := Query.forall_preorder_cons.1 hq
    unfold select
    refine (locate_meets ha hentity.1 hv).bind fun {found} hfound => ?_
    cases found with
    | none => exact .pure (by simp [Selection.Plain])
    | some w =>
      refine (evaluate_meets ha hn entity hentity hchildren (hfound w rfl)).bind fun hvalue => ?_
      refine (select_meets ha hn query hothers hv).bind fun hs => .pure fun entries he => ?_
      obtain ⟨others, hmem, rfl⟩ := Option.map_eq_some_iff.1 he
      exact List.forall_mem_cons.2 ⟨hvalue, hs others hmem⟩

/-- What an entity makes of a plain value is plain. -/
theorem evaluate_meets (ha : ev.accessor.Within Fail)
    (hn : ev.normalizers = Normalizer.default) :
    ∀ (entity : Entity) {v : Value}, entity.Within Fail numbers →
      (∀ children ∈ entity.children, ∀ e ∈ Query.preorder children, e.Within Fail numbers) →
      v.Plain numbers → Eval.Meets Fail (Value.Plain numbers) (ev.evaluate entity v)
  | ⟨aliasName, path, identifier, children, modifiers⟩, v, he, hc, hv => by
    unfold evaluate
    refine (Eval.Meets.ofExcept (prepare_meets hn _ hv)).bind fun hprepared => ?_
    cases children with
    | none => exact finish_meets ha he.2 hprepared
    | some query =>
      dsimp only
      split
      · exact finish_meets ha he.2 hprepared
      · have hsub : ∀ {v : Value}, v.Plain numbers →
            Eval.Meets Fail (Selection.Plain numbers) (ev.select query v) :=
          select_meets ha hn query (hc query rfl)
        exact (project_meets hsub hprepared).bind fun hw => finish_meets ha he.2 hw

end

end Evaluator

/-! ### Parsed queries -/

/-- Modifiers that were written can do no more than refuse a value, but for sorts. -/
theorem Modifier.WellFormed.within {m : Modifier} (h : m.WellFormed)
    (hf : ∀ e, IsRefused e → Fail e)
    (hc : ¬ Value.Preordered numbers → Fail .contradictoryOrder) : m.Within Fail numbers := by
  have hrefused : ∀ modifier found, Fail (.wrongType modifier found) :=
    fun modifier found => hf _ ⟨modifier, found, rfl⟩
  cases m with
  | sort terms => exact ⟨hrefused "sort", hc, fun term ht => (h.2 term ht).1⟩
  | limit offset count => exact hrefused "limit"
  | randomize => exact hrefused "randomize"
  | generic keyword payload => trivial

theorem apply_meets {ev : Evaluator} (ha : ev.accessor.Within Fail)
    (hn : ev.normalizers = Normalizer.default) {query : Query} (hq : query.WellFormed) {json : Json}
    (hm : ∀ entity ∈ Query.preorder query, ∀ m ∈ entity.modifiers, m.WellFormed →
      m.Within Fail json.numbers) :
    Eval.Meets Fail (Selection.Plain json.numbers) (ev.apply query (.value (.ofJson json))) := by
  refine Evaluator.select_meets ha hn query (fun entity he => ?_) (Value.plain_ofJson json)
  obtain ⟨⟨hpath, -, hmodifiers⟩, -⟩ := hq.2 entity he
  exact ⟨hpath, fun m hmem => hm entity he m hmem (hmodifiers m hmem)⟩

/-- **How parsed queries fail on JSON.** A lenient run fails only where a modifier refuses a value,
or where a sort finds that the order of its keys contradicts itself, which takes two different
binary numbers in the document that tie with a whole number in it. So it never fails if no modifier
has a meaning; a strict run may also miss a property. Every run that does not fail gives what
becomes JSON. The paths in the query are read as the names between their points. -/
theorem apply_parsed_ofJson {text : String} {query : Query} (hq : parse text = .ok query)
    (json : Json) (recursion : ObjectRecursion) (g : Generator) :
    let run (strict : Bool) := (Evaluator.apply { accessor := ⟨strict⟩, recursion } query
      (.value (.ofJson json)) g).result
    (∀ e, run false = .error e →
        IsRefused e ∨ (e = .contradictoryOrder ∧ json.Conflicting)) ∧
      (∀ e, run true = .error e →
        IsRefused e ∨ IsMissing e ∨ (e = .contradictoryOrder ∧ json.Conflicting)) ∧
      ((∀ entity ∈ Query.preorder query, ∀ m ∈ entity.modifiers,
          ∃ keyword payload, m = .generic keyword payload) → ∃ s, run false = .ok s) ∧
      (∀ strict s, run strict = .ok s → ∃ json', Selection.toJson s = .ok json') ∧
      ∀ entity ∈ Query.preorder query,
        parsePath entity.path = .ok ((dotNames entity.path).map .field) ∧
          ∀ terms, .sort terms ∈ entity.modifiers → ∀ term ∈ terms,
            parsePath term.property = .ok ((dotNames term.property).map .field) := by
  intro run
  have hw := wellFormed_of_parse hq
  have hconflict : ¬ Value.Preordered json.numbers → json.Conflicting := by
    intro h
    by_contra hnone
    exact h (Json.preordered_numbers hnone)
  let Lenient (e : EvalError) : Prop :=
    IsRefused e ∨ (e = .contradictoryOrder ∧ json.Conflicting)
  let Strict (e : EvalError) : Prop :=
    IsRefused e ∨ IsMissing e ∨ (e = .contradictoryOrder ∧ json.Conflicting)
  have hlenient : Meets Lenient (Selection.Plain json.numbers) (run false) :=
    apply_meets nofun rfl hw (fun _ _ m _ hm => hm.within (fun _ he => .inl he)
      fun h => .inr ⟨rfl, hconflict h⟩) g
  have hstrict : Meets Strict (Selection.Plain json.numbers) (run true) :=
    apply_meets (fun _ path => .inr (.inl ⟨path, rfl⟩)) rfl hw
      (fun _ _ m _ hm => hm.within (fun _ he => .inl he)
        fun h => .inr (.inr ⟨rfl, hconflict h⟩)) g
  refine ⟨fun e => hlenient.of_eq_error, fun e => hstrict.of_eq_error, fun hgeneric => ?_,
    fun strict s hs => ?_, fun entity he => ?_⟩
  · have hnever : Meets Never (Selection.Plain json.numbers) (run false) := by
      refine apply_meets nofun rfl hw (fun entity he m hm _ => ?_) g
      obtain ⟨keyword, payload, rfl⟩ := hgeneric entity he m hm
      trivial
    cases hrun : run false with
    | ok s => exact ⟨s, rfl⟩
    | error e => exact (hnever.of_eq_error hrun).elim
  · cases strict with
    | false => exact (hlenient.of_eq_ok hs).toJson
    | true => exact (hstrict.of_eq_ok hs).toJson
  · obtain ⟨⟨hpath, -, hmodifiers⟩, -⟩ := hw.2 entity he
    refine ⟨parsePath_of_isPath hpath, fun terms ht term hterm => ?_⟩
    exact parsePath_of_isPath ((hmodifiers _ ht).2 term hterm).1

/-- A limit on a whole number is refused; a query without one cannot fail. -/
theorem apply_parsed_ofJson_limited :
    let json : Json := .object [("a", .integer 1)]
    let limited : Query := [⟨"a", "a", none, none, [.limit 0 (some 1)]⟩]
    let marked : Entity := ⟨"a.b", "a.b", none, none, [.generic "m" none]⟩
    let run (query : Query) := (Evaluator.apply {} query (.value (.ofJson json)) ⟨0⟩).result
    parse "a|limit:1" = .ok limited ∧ parse "a.b|m" = .ok [marked] ∧
      run limited = .error (.wrongType "limit" "integer") ∧
      IsRefused (.wrongType "limit" "integer") ∧ (∃ s, run [marked] = .ok s) ∧
      parsePath marked.path = .ok ((dotNames marked.path).map .field) := by
  intro json limited marked run
  have hlimited : parse "a|limit:1" = .ok limited := by
    set_option maxRecDepth 2000 in cbv
  have hmarked : parse "a.b|m" = .ok [marked] := by
    set_option maxRecDepth 2000 in cbv
  have hrun : run limited = .error (.wrongType "limit" "integer") := rfl
  have hl := apply_parsed_ofJson hlimited json .elementWise ⟨0⟩
  have hm := apply_parsed_ofJson hmarked json .elementWise ⟨0⟩
  have hall : ∀ entity ∈ Query.preorder [marked], entity = marked := by
    simp [marked, Query.preorder, Entity.preorder]
  refine ⟨hlimited, hmarked, hrun, (hl.1 _ hrun).resolve_right (fun h => EvalError.noConfusion h.1),
    hm.2.2.1 fun entity he m hmem => ?_, (hm.2.2.2.2 marked List.mem_cons_self).1⟩
  rw [hall entity he] at hmem
  exact ⟨"m", none, List.mem_singleton.1 hmem⟩

/-- A sort of 22 rows of a document finds that the order contradicts itself: the least number above
one is behind the binary number one and ties with the whole number one, which that ties with. -/
theorem exists_contradictory_sort :
    let row (number : Json) : Json := .object [("k", number)]
    let rows := row (.integer 5) :: row (.integer 0) ::
      List.replicate 9 (row (.ofFloat Value.aboveOne)) ++
        row (.integer 1) :: List.replicate 10 (row (.ofFloat Value.one))
    ∃ query, parse "xs|sort: k" = .ok query ∧
      (Evaluator.apply {} query (.value (.ofJson (.object [("xs", .array rows)]))) ⟨0⟩).result =
        .error .contradictoryOrder ∧ ¬ IsRefused .contradictoryOrder := by
  intro row rows
  let terms : List SortTerm := [⟨"k", .ascending⟩]
  have hparse : parse "xs|sort: k" = .ok [⟨"xs", "xs", none, none, [.sort terms]⟩] := by
    have hk : IsPath "k" := isPath_of_isName (by decide)
    have htext : "xs" ++ "|sort: " ++ "k" = "xs|sort: k" := by simp
    exact htext ▸ parse_sorted (by decide) hk
  refine ⟨_, hparse, ?_, nofun⟩
  -- there are five different rows
  let number (i : Fin 5) : Json :=
    [.integer 5, .integer 0, .ofFloat Value.aboveOne, .integer 1, .ofFloat Value.one].get i
  let places : List (Fin 5) := 0 :: 1 :: List.replicate 9 2 ++ 3 :: List.replicate 10 4
  let before : Fin 5 → Fin 5 → Bool
    | 0, _ => false
    | 1, j => j != 1
    | 4, j => j == 0 || j == 2
    | _, j => j == 0
  let item (i : Fin 5) : Value := .object [("k", .ofJson (number i))]
  have hbefore : ∀ i j, (orderKeys terms [.ofJson (number i)] [.ofJson (number j)] == .lt) =
      before i j := by
    decide +kernel
  have harranged : Sorting.arrange before places = none := by
    decide +kernel
  have hread : ∀ i, sortKeys {} (item i) terms = .ok [.ofJson (number i)] := by
    intro i
    cbv
  have hsorted : sortItems {} terms (places.map item) = .error .contradictoryOrder := by
    rw [sortItems_map_keys {} fun i _ => hread i]
    simp only [hbefore]
    rw [harranged]
    rfl
  have hitems : Value.ofJson (.object [("xs", .array rows)]) =
      .object [("xs", .array (places.map item))] := rfl
  rw [hitems, Evaluator.result_apply_sorted rfl rfl rfl, hsorted]
  rfl

end NestedQuery
