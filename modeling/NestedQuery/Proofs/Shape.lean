/-
# Scalars and sequences

What the parts of an evaluation do with a value depends on its shape. A
scalar has no properties, is refused by modifiers, and goes through a
sub-query as it is. An array holds its items and a collection yields them, or
fails; apart from its handle a collection is read, searched, projected,
ranked and realized like the array of its items, except that a failure comes
first, so each of these depends on the outcome of the sequence only.

Key definitions: `Value.outcome?`, `Value.Realized`, `Evaluator.descend`.
Key theorems: `Value.eq_of_isScalar`, `Value.outcome?_eq_some_iff` and the
equations for either shape, `Value.order_congr`, `Evaluator.evaluate_eq`,
`Evaluator.select_congr`.
-/
import NestedQuery.Evaluator

namespace NestedQuery
namespace Value

variable {v : Value} {o : Except EvalError (List Value)}

/-! ### Scalars -/

theorem eq_of_isScalar (h : v.isScalar) :
    v = null ∨ (∃ b, v = boolean b) ∨ (∃ n, v = integer n) ∨ (∃ x, v = float x) ∨
      (∃ s, v = string s) ∨ ∃ t, v = dateTime t := by
  cases v with
  | null | boolean | integer | float | string | dateTime => simp
  | _ => cases h

theorem read_scalar (h : v.isScalar) (segment : Segment) : v.read segment = .ok none := by
  obtain rfl | ⟨b, rfl⟩ | ⟨n, rfl⟩ | ⟨x, rfl⟩ | ⟨s, rfl⟩ | ⟨t, rfl⟩ := eq_of_isScalar h <;> rfl

theorem realize_scalar (h : v.isScalar) : v.realize = .ok v := by
  obtain rfl | ⟨b, rfl⟩ | ⟨n, rfl⟩ | ⟨x, rfl⟩ | ⟨s, rfl⟩ | ⟨t, rfl⟩ := eq_of_isScalar h <;> rfl

theorem sequence_scalar (h : v.isScalar) (modifier : String) :
    v.sequence modifier = .error (.wrongType modifier v.typeName) := by
  obtain rfl | ⟨b, rfl⟩ | ⟨n, rfl⟩ | ⟨x, rfl⟩ | ⟨s, rfl⟩ | ⟨t, rfl⟩ := eq_of_isScalar h <;> rfl

theorem slice_scalar (h : v.isScalar) (offset : Nat) (count : Option Nat) :
    v.slice offset count = .error (.wrongType "limit" v.typeName) := by
  obtain rfl | ⟨b, rfl⟩ | ⟨n, rfl⟩ | ⟨x, rfl⟩ | ⟨s, rfl⟩ | ⟨t, rfl⟩ := eq_of_isScalar h <;> rfl

/-! ### Sequences -/

/-- The items of a sequence, if it gives them. -/
def outcome? : Value → Option (Except EvalError (List Value))
  | array items => some (.ok items)
  | collection _ outcome => some outcome
  | _ => none

theorem outcome?_eq_some_iff :
    v.outcome? = some o ↔
      (∃ items, v = array items ∧ o = .ok items) ∨ ∃ handle, v = collection handle o := by
  constructor
  · intro h
    cases v with
    | array items =>
      cases h
      exact .inl ⟨items, rfl, rfl⟩
    | collection handle outcome =>
      cases h
      exact .inr ⟨handle, rfl⟩
    | _ => cases h
  · rintro (⟨items, rfl, rfl⟩ | ⟨handle, rfl⟩) <;> rfl

theorem realize_sequence (h : v.outcome? = some o) : v.realize = o.map array := by
  obtain ⟨items, rfl, rfl⟩ | ⟨handle, rfl⟩ := outcome?_eq_some_iff.1 h <;> rfl

theorem read_sequence (h : v.outcome? = some o) (segment : Segment) :
    v.read segment = o.map fun items => item? items segment := by
  obtain ⟨items, rfl, rfl⟩ | ⟨handle, rfl⟩ := outcome?_eq_some_iff.1 h <;> rfl

theorem rank_sequence (h : v.outcome? = some o) : v.rank = 5 := by
  obtain ⟨items, rfl, rfl⟩ | ⟨handle, rfl⟩ := outcome?_eq_some_iff.1 h <;> rfl

theorem isScalar_sequence (h : v.outcome? = some o) : v.isScalar = false := by
  obtain ⟨items, rfl, rfl⟩ | ⟨handle, rfl⟩ := outcome?_eq_some_iff.1 h <;> rfl

/-! ### Realized values -/

/-- Not a collection. -/
def Realized (v : Value) : Prop := ∀ handle outcome, v ≠ collection handle outcome

theorem realized_scalar (h : v.isScalar) : v.Realized := by
  rintro handle outcome rfl
  cases h

theorem realized_array (items : List Value) : (array items).Realized := fun _ _ h => by cases h

theorem realized_object (entries : Entries Value) : (object entries).Realized :=
  fun _ _ h => by cases h

/-- A realized sequence is the array of its items. -/
theorem Realized.sequence (hv : v.Realized) (h : v.outcome? = some o) :
    ∃ items, v = array items ∧ o = .ok items := by
  obtain h | ⟨handle, rfl⟩ := outcome?_eq_some_iff.1 h
  · exact h
  · exact (hv _ _ rfl).elim

/-- Realizing changes nothing but a collection, which becomes an array. -/
theorem realize_eq_ok {w : Value} (h : v.realize = .ok w) :
    w = v ∨ ∃ handle items, v = collection handle (.ok items) ∧ w = array items := by
  cases v with
  | collection handle outcome =>
    cases outcome with
    | error e => cases h
    | ok items =>
      cases h
      exact .inr ⟨handle, items, rfl, rfl⟩
  | _ =>
    cases h
    exact .inl rfl

/-! ### Order -/

/-- Where kinds differ, and in a kind that has no order of its own, the kinds decide. -/
theorem order_eq_compare_rank_of_rank {a b : Value}
    (h : a.rank ≠ b.rank ∨ a.rank = 0 ∨ 5 ≤ a.rank) : a.order b = compare a.rank b.rank := by
  cases a <;> cases b <;> first | rfl | simp [rank] at h

theorem le_rank_of_not_scalar {v : Value} (h : v.isScalar = false) : 5 ≤ v.rank := by
  cases v <;> simp [isScalar, rank] at h ⊢

/-- Where a scalar meets something else, the kinds decide. -/
theorem order_eq_compare_rank {a b : Value} (h : a.isScalar = false ∨ b.isScalar = false) :
    a.order b = compare a.rank b.rank := by
  refine order_eq_compare_rank_of_rank ?_
  rcases h with ha | hb
  · exact .inr (.inr (le_rank_of_not_scalar ha))
  · have hrank := le_rank_of_not_scalar hb
    omega

/-- The order does not depend on what values without an order of their own are like inside. -/
theorem order_congr {a a' b b' : Value}
    (ha : a = a' ∨ a.isScalar = false ∧ a'.isScalar = false ∧ a.rank = a'.rank)
    (hb : b = b' ∨ b.isScalar = false ∧ b'.isScalar = false ∧ b.rank = b'.rank) :
    a.order b = a'.order b' := by
  rcases ha with rfl | ⟨ha, ha', hr⟩
  · rcases hb with rfl | ⟨hb, hb', hr⟩
    · rfl
    · rw [order_eq_compare_rank (.inr hb), order_eq_compare_rank (.inr hb'), hr]
  · have hr' : b.rank = b'.rank := by
      rcases hb with rfl | ⟨-, -, hr'⟩
      · rfl
      · exact hr'
    rw [order_eq_compare_rank (.inl ha), order_eq_compare_rank (.inl ha'), hr, hr']

end Value

/-! ### Evaluation -/

namespace Evaluator

variable {v : Value} {o : Except EvalError (List Value)} (ev : Evaluator)

theorem locate_scalar (h : v.isScalar) (entity : Entity) :
    ev.locate v entity =
      Eval.report (.unresolvedRoot v.typeName entity.path) >>= fun _ => pure none := by
  obtain rfl | ⟨b, rfl⟩ | ⟨n, rfl⟩ | ⟨x, rfl⟩ | ⟨s, rfl⟩ | ⟨t, rfl⟩ :=
    Value.eq_of_isScalar h <;> rfl

theorem materialize_scalar (h : v.isScalar) (entity : Entity) : ev.materialize entity v = .ok v := by
  obtain rfl | ⟨b, rfl⟩ | ⟨n, rfl⟩ | ⟨x, rfl⟩ | ⟨s, rfl⟩ | ⟨t, rfl⟩ :=
    Value.eq_of_isScalar h <;> rfl

theorem project_scalar (h : v.isScalar) (subQuery : Value → Eval Selection) :
    ev.project subQuery v = Selection.toValue <$> subQuery v := by
  obtain rfl | ⟨b, rfl⟩ | ⟨n, rfl⟩ | ⟨x, rfl⟩ | ⟨s, rfl⟩ | ⟨t, rfl⟩ :=
    Value.eq_of_isScalar h <;> rfl

theorem locate_sequence (h : v.outcome? = some o) (entity : Entity) :
    ev.locate v entity = some <$> Eval.ofExcept (o.bind fun items =>
      ev.accessor.getKey (.array items) entity.path) := by
  obtain ⟨items, rfl, rfl⟩ | ⟨handle, rfl⟩ := Value.outcome?_eq_some_iff.1 h <;> rfl

theorem materialize_sequence (h : v.outcome? = some o) (entity : Entity) :
    ev.materialize entity v = .ok v := by
  obtain ⟨items, rfl, rfl⟩ | ⟨handle, rfl⟩ := Value.outcome?_eq_some_iff.1 h <;> rfl

theorem project_sequence (h : v.outcome? = some o) (subQuery : Value → Eval Selection) :
    ev.project subQuery v = Eval.ofExcept o >>= fun items =>
      Value.array <$> Eval.forEach (fun item => Selection.toValue <$> subQuery item) items := by
  obtain ⟨items, rfl, rfl⟩ | ⟨handle, rfl⟩ := Value.outcome?_eq_some_iff.1 h <;> rfl

/-! ### The steps of an entity -/

/-- The entity's sub-query applied to its value, which a leaf takes as it is. -/
def descend (entity : Entity) (v : Value) : Eval Value :=
  match entity.children with
  | none => pure v
  | some query => if query.isEmpty then pure v else ev.project (ev.select query) v

/-- An entity prepares its value, goes down into it, and finishes. -/
theorem evaluate_eq (entity : Entity) (v : Value) :
    ev.evaluate entity v =
      Eval.ofExcept (ev.prepare entity v) >>= fun w => ev.descend entity w >>= ev.finish entity := by
  obtain ⟨aliasName, path, identifier, children, modifiers⟩ := entity
  unfold evaluate
  cases children with
  | none => rfl
  | some query =>
    unfold descend
    dsimp only
    split <;> rfl

theorem evaluate_of_prepare {entity : Entity} {v w : Value} (h : ev.prepare entity v = .ok w) :
    ev.evaluate entity v = ev.descend entity w >>= ev.finish entity := by
  rw [evaluate_eq, h]
  rfl

/-- A query selects the same from two roots if its entities find the same in them. -/
theorem select_congr {query : List Entity} {root root' : Value}
    (h : ∀ entity ∈ query, ev.locate root entity = ev.locate root' entity) :
    ev.select query root = ev.select query root' := by
  induction query with
  | nil => rfl
  | cons entity query ih =>
    obtain ⟨hentity, hquery⟩ := List.forall_mem_cons.1 h
    unfold select
    rw [hentity, ih hquery]

end Evaluator
end NestedQuery
