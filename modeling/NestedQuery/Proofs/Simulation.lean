/-
# Simulation

A relation between values is a simulation between two evaluators if values
that it relates look alike to them: the same scalar, sequences of related
items, entries with the same keys and related values. What the evaluators do
with related values then agrees step by step, from reading a property to
applying a query, so two runs on related roots report the same and end in
related values or in the same error. The accessor of the first evaluator may
fail where that of the second one does not; from there on only the second
run goes on.

Key definitions: `Entries.Related`, `SameShape`, `Simulation`,
`Root.Related`.
Key theorems: `Simulation.read`, `Simulation.runModifiers`,
`Simulation.select`, `Simulation.apply`.
-/
import NestedQuery.Proofs.Lockstep
import NestedQuery.Proofs.Shape

namespace NestedQuery

variable {Stop : EvalError → Prop} {ev ev' : Evaluator} {R : Value → Value → Prop}

/-- Entries with the same keys in the same order and related values. -/
abbrev Entries.Related (R : Value → Value → Prop) : Entries Value → Entries Value → Prop :=
  List.Forall₂ fun e e' => e.1 = e'.1 ∧ R e.2 e'.2

/-- Two values that differ in their parts only, and there up to the relation. -/
inductive SameShape (a a' : Accessor) (R : Value → Value → Prop) : Value → Value → Prop
  | scalar {v : Value} : v.isScalar → SameShape a a' R v v
  | sequence {v w : Value} {o o' : Except EvalError (List Value)} :
    v.outcome? = some o → w.outcome? = some o' → Agree Never (List.Forall₂ R) o o' →
    SameShape a a' R v w
  | object {entries entries' : Entries Value} :
    Entries.Related R entries entries' → SameShape a a' R (.object entries) (.object entries')
  | record {handle handle' : Nat} {type : String} {attributes attributes' : Entries Value} :
    Entries.Related R attributes attributes' →
    SameShape a a' R (.record handle type attributes) (.record handle' type attributes')
  | deferred {handle handle' : Nat}
    {compute compute' : Entity → Accessor → Except EvalError Value} :
    (∀ entity, Agree Never R (compute entity a) (compute' entity a')) →
    SameShape a a' R (.deferred handle compute) (.deferred handle' compute')

/-- What a relation must satisfy for two evaluators to treat related values alike. -/
structure Simulation (Stop : EvalError → Prop) (ev ev' : Evaluator)
    (R : Value → Value → Prop) : Prop where
  shape {v w : Value} : R v w → SameShape ev.accessor ev'.accessor R v w
  null : R .null .null
  array {items items' : List Value} : List.Forall₂ R items items' → R (.array items) (.array items')
  object {entries entries' : Entries Value} :
    Entries.Related R entries entries' → R (.object entries) (.object entries')
  missing (path : String) : Agree Stop R (ev.accessor.missing path) (ev'.accessor.missing path)
  normalize {v w : Value} :
    R v w → Agree Stop R (normalize ev.normalizers v) (normalize ev'.normalizers w)
  recursion : ev.recursion = ev'.recursion

/-! ### Entries -/

namespace Entries

theorem Related.get? {entries entries' : Entries Value} (h : Related R entries entries')
    (key : String) : Option.Rel R (get? entries key) (get? entries' key) := by
  induction h with
  | nil => exact .none
  | @cons e e' _ _ he _ ih =>
    obtain ⟨k, v⟩ := e
    obtain ⟨k', v'⟩ := e'
    obtain ⟨rfl, hv⟩ := he
    unfold Entries.get?
    by_cases hk : k = key
    · rw [if_pos hk, if_pos hk]
      exact .some hv
    · rw [if_neg hk, if_neg hk]
      exact ih

theorem related_iff {entries entries' : Entries Value} :
    Related R entries entries' ↔
      entries.keys = entries'.keys ∧
        List.Forall₂ R (entries.map Prod.snd) (entries'.map Prod.snd) := by
  induction entries generalizing entries' with
  | nil => cases entries' <;> simp [keys]
  | cons e entries ih =>
    cases entries' with
    | nil => simp [keys]
    | cons e' entries' =>
      simp only [List.forall₂_cons, ih, keys, List.map_cons, List.cons.injEq]
      rw [and_and_and_comm]

theorem Related.values {entries entries' : Entries Value} (h : Related R entries entries') :
    List.Forall₂ R (entries.map Prod.snd) (entries'.map Prod.snd) := (related_iff.1 h).2

end Entries

theorem item?_related {items items' : List Value} (h : List.Forall₂ R items items')
    (segment : Segment) :
    Option.Rel R (Value.item? items segment) (Value.item? items' segment) := by
  obtain ⟨ps, rfl, rfl⟩ := exists_pairs h
  unfold Value.item?
  cases segment.position? with
  | none => exact .none
  | some position =>
    simp only [Option.bind_some, List.getElem?_map]
    cases ps[position]? with
    | none => exact .none
    | some p => exact .some p.2

theorem forall₂_slice {α β : Type} {S : α → β → Prop} (offset : Nat) (count : Option Nat)
    {xs : List α} {ys : List β} (h : List.Forall₂ S xs ys) :
    List.Forall₂ S (slice offset count xs) (slice offset count ys) := by
  obtain ⟨ps, rfl, rfl⟩ := exists_pairs h
  rw [slice_map, slice_map]
  exact forall₂_pairs _

namespace SameShape

variable {a a' : Accessor} {v w : Value}

theorem rank (h : SameShape a a' R v w) : v.rank = w.rank := by
  cases h with
  | scalar => rfl
  | sequence hv hw => rw [Value.rank_sequence hv, Value.rank_sequence hw]
  | object => rfl
  | record => rfl
  | deferred => rfl

/-- Values of the same shape are the same, or have no order of their own. -/
theorem eq_or_rank (h : SameShape a a' R v w) :
    v = w ∨ v.isScalar = false ∧ w.isScalar = false ∧ v.rank = w.rank := by
  have hr := h.rank
  cases h with
  | scalar => exact .inl rfl
  | sequence hv hw => exact .inr ⟨Value.isScalar_sequence hv, Value.isScalar_sequence hw, hr⟩
  | object => exact .inr ⟨rfl, rfl, hr⟩
  | record => exact .inr ⟨rfl, rfl, hr⟩
  | deferred => exact .inr ⟨rfl, rfl, hr⟩

end SameShape

namespace Simulation

variable {v w : Value}

/-! ### Reading -/

theorem read (h : Simulation Stop ev ev' R) (hR : R v w) (segment : Segment) :
    Agree Stop (Option.Rel R) (v.read segment) (w.read segment) := by
  cases h.shape hR with
  | scalar hs =>
    rw [Value.read_scalar hs]
    exact .ok .none
  | sequence hv hw ho =>
    rw [Value.read_sequence hv, Value.read_sequence hw]
    exact ho.of_never.map fun hitems => item?_related hitems segment
  | object he => exact .ok (he.get? _)
  | record he => exact .ok (he.get? _)
  | deferred => exact .ok .none

theorem follow (h : Simulation Stop ev ev' R) (hR : R v w) (segments : List Segment) :
    Agree Stop (Option.Rel R) (v.follow segments) (w.follow segments) := by
  induction segments generalizing v w with
  | nil => exact .ok (.some hR)
  | cons segment segments ih =>
    have hread := h.read hR segment
    unfold Value.follow
    generalize v.read segment = x at hread
    generalize w.read segment = y at hread
    cases hread with
    | error e => exact .error e
    | stopped hs => exact .stopped hs
    | ok hfound =>
      cases hfound with
      | none => exact .ok .none
      | some hR' => exact ih hR'

theorem getValue (h : Simulation Stop ev ev' R) (hR : R v w) (path : String) :
    Agree Stop R (ev.accessor.getValue v path) (ev'.accessor.getValue w path) := by
  unfold Accessor.getValue
  cases parsePath path with
  | error e => exact .error e
  | ok segments =>
    have hfollow := h.follow hR segments
    dsimp only
    generalize v.follow segments = x at hfollow
    generalize w.follow segments = y at hfollow
    cases hfollow with
    | error e => exact .error e
    | stopped hs => exact .stopped hs
    | ok hfound =>
      cases hfound with
      | none => exact h.missing path
      | some hR' => exact .ok hR'

theorem getKey (h : Simulation Stop ev ev' R) (hR : R v w) (key : String) :
    Agree Stop R (ev.accessor.getKey v key) (ev'.accessor.getKey w key) := by
  have hread := h.read hR (.field key)
  unfold Accessor.getKey
  generalize v.read (.field key) = x at hread
  generalize w.read (.field key) = y at hread
  cases hread with
  | error e => exact .error e
  | stopped hs => exact .stopped hs
  | ok hfound =>
    cases hfound with
    | some hR' => exact .ok hR'
    | none =>
      dsimp only
      split
      · exact h.getValue hR key
      · exact h.missing key

/-! ### Modifiers -/

theorem sortKeys (h : Simulation Stop ev ev' R) (hR : R v w) (terms : List SortTerm) :
    Agree Stop (List.Forall₂ R) (sortKeys ev.accessor v terms)
      (sortKeys ev'.accessor w terms) := by
  induction terms with
  | nil => exact .ok .nil
  | cons term terms ih =>
    have hkey := h.getValue hR term.property
    unfold NestedQuery.sortKeys
    generalize ev.accessor.getValue v term.property = x at hkey
    generalize ev'.accessor.getValue w term.property = y at hkey
    cases hkey with
    | error e => exact .error e
    | stopped hs => exact .stopped hs
    | ok hab => exact ih.map fun hkeys => .cons hab hkeys

/-- Items with their keys, both related. -/
abbrev Keyed (R : Value → Value → Prop) (p q : List Value × Value) : Prop :=
  List.Forall₂ R p.1 q.1 ∧ R p.2 q.2

theorem keyed (h : Simulation Stop ev ev' R) (terms : List SortTerm) {items items' : List Value}
    (hR : List.Forall₂ R items items') :
    Agree Stop (List.Forall₂ (Keyed R)) (keyed ev.accessor terms items)
      (keyed ev'.accessor terms items') := by
  induction hR with
  | nil => exact .ok .nil
  | @cons v w items items' hvw _ ih =>
    have hkeys := h.sortKeys hvw terms
    unfold NestedQuery.keyed
    generalize NestedQuery.sortKeys ev.accessor v terms = x at hkeys
    generalize NestedQuery.sortKeys ev'.accessor w terms = y at hkeys
    cases hkeys with
    | error e => exact .error e
    | stopped hs => exact .stopped hs
    | ok hab => exact ih.map fun hpairs => .cons ⟨hab, hvw⟩ hpairs

theorem order (h : Simulation Stop ev ev' R) {a b c d : Value} (hac : R a c) (hbd : R b d) :
    a.order b = c.order d :=
  Value.order_congr (h.shape hac).eq_or_rank (h.shape hbd).eq_or_rank

theorem orderKeys (h : Simulation Stop ev ev' R) (terms : List SortTerm)
    {as bs cs ds : List Value} (hac : List.Forall₂ R as cs) (hbd : List.Forall₂ R bs ds) :
    orderKeys terms as bs = orderKeys terms cs ds := by
  induction terms generalizing as bs cs ds with
  | nil => rfl
  | cons term terms ih =>
    cases hac with
    | nil => rfl
    | cons ha has =>
      cases hbd with
      | nil => rfl
      | cons hb hbs => simp only [NestedQuery.orderKeys, h.order ha hb, ih has hbs]

theorem sortItems (h : Simulation Stop ev ev' R) (terms : List SortTerm)
    {items items' : List Value} (hR : List.Forall₂ R items items') :
    Agree Stop (List.Forall₂ R) (sortItems ev.accessor terms items)
      (sortItems ev'.accessor terms items') := by
  have hbefore : ∀ p q p' q' : List Value × Value, Keyed R p p' → Keyed R q q' →
      (NestedQuery.orderKeys terms p.1 q.1 == .lt) =
        (NestedQuery.orderKeys terms p'.1 q'.1 == .lt) :=
    fun _ _ _ _ hp hq => by rw [h.orderKeys terms hp.1 hq.1]
  refine (h.keyed terms hR).bind fun hpairs => (Agree.arrange hbefore hpairs).map fun hsorted => ?_
  rw [List.forall₂_map_left_iff, List.forall₂_map_right_iff]
  exact hsorted.imp fun _ _ hp => hp.2

/-- Related values none of which is a collection, as modifiers meet them. -/
abbrev Settled (R : Value → Value → Prop) (v w : Value) : Prop := R v w ∧ v.Realized ∧ w.Realized

theorem settled_array (h : Simulation Stop ev ev' R) {items items' : List Value}
    (hR : List.Forall₂ R items items') : Settled R (.array items) (.array items') :=
  ⟨h.array hR, Value.realized_array items, Value.realized_array items'⟩

theorem settled_object (h : Simulation Stop ev ev' R) {entries entries' : Entries Value}
    (hR : Entries.Related R entries entries') : Settled R (.object entries) (.object entries') :=
  ⟨h.object hR, Value.realized_object entries, Value.realized_object entries'⟩

theorem sequence (h : Simulation Stop ev ev' R) (modifier : String) (hR : Settled R v w) :
    Agree Stop (List.Forall₂ R) (v.sequence modifier) (w.sequence modifier) := by
  obtain ⟨hR, hv, hw⟩ := hR
  cases h.shape hR with
  | scalar hs =>
    rw [Value.sequence_scalar hs]
    exact .error _
  | sequence ho ho' hitems =>
    obtain ⟨items, rfl, rfl⟩ := hv.sequence ho
    obtain ⟨items', rfl, rfl⟩ := hw.sequence ho'
    exact hitems.of_never
  | object he => exact .ok he.values
  | record => exact .error _
  | deferred => exact .error _

theorem slice (h : Simulation Stop ev ev' R) (offset : Nat) (count : Option Nat)
    (hR : Settled R v w) :
    Agree Stop (Settled R) (v.slice offset count) (w.slice offset count) := by
  obtain ⟨hR, hv, hw⟩ := hR
  cases h.shape hR with
  | scalar hs =>
    rw [Value.slice_scalar hs]
    exact .error _
  | sequence ho ho' hitems =>
    obtain ⟨items, rfl, rfl⟩ := hv.sequence ho
    obtain ⟨items', rfl, rfl⟩ := hw.sequence ho'
    cases hitems with
    | ok hitems => exact .ok (h.settled_array (forall₂_slice offset count hitems))
  | object he => exact .ok (h.settled_object (forall₂_slice offset count he))
  | record => exact .error _
  | deferred => exact .error _

/-- A modifier does the same to related values. -/
theorem runModifier (h : Simulation Stop ev ev' R) (aliasName : String) (modifier : Modifier)
    (hR : Settled R v w) :
    Eval.Agree Stop (Settled R) (runModifier ev.accessor aliasName modifier v)
      (runModifier ev'.accessor aliasName modifier w) := by
  cases modifier with
  | randomize =>
    refine (Eval.Agree.ofExcept (h.sequence "randomize" hR)).bind fun hitems => ?_
    refine (Eval.Agree.shuffle hitems).bind fun hshuffled => ?_
    exact (Eval.Agree.report _).bind fun _ => .pure (h.settled_array hshuffled)
  | sort terms =>
    refine (Eval.Agree.ofExcept (h.sequence "sort" hR)).bind fun hitems => ?_
    refine (Eval.Agree.reportAll _).bind fun _ => ?_
    refine (Eval.Agree.ofExcept (h.sortItems terms hitems)).bind fun hsorted => ?_
    exact (Eval.Agree.report _).bind fun _ => .pure (h.settled_array hsorted)
  | limit offset count => exact .ofExcept (h.slice offset count hR)
  | generic keyword payload => exact (Eval.Agree.report _).bind fun _ => .pure hR

/-- So do modifiers one after the other. -/
theorem runModifiers (h : Simulation Stop ev ev' R) (aliasName : String)
    (modifiers : List Modifier) (hR : Settled R v w) :
    Eval.Agree Stop (Settled R) (runModifiers ev.accessor aliasName modifiers v)
      (runModifiers ev'.accessor aliasName modifiers w) := by
  induction modifiers generalizing v w with
  | nil => exact .pure hR
  | cons modifier modifiers ih => exact (h.runModifier aliasName modifier hR).bind ih

/-! ### Entities -/

theorem realize (h : Simulation Stop ev ev' R) (hR : R v w) :
    Agree Stop (Settled R) v.realize w.realize := by
  cases h.shape hR with
  | scalar hs =>
    have hv := Value.realized_scalar hs
    rw [Value.realize_scalar hs]
    exact .ok ⟨hR, hv, hv⟩
  | sequence ho ho' hitems =>
    rw [Value.realize_sequence ho, Value.realize_sequence ho']
    exact hitems.of_never.map h.settled_array
  | object he => exact .ok (h.settled_object he)
  | record => exact .ok ⟨hR, nofun, nofun⟩
  | deferred => exact .ok ⟨hR, nofun, nofun⟩

theorem finish (h : Simulation Stop ev ev' R) (entity : Entity) (hR : R v w) :
    Eval.Agree Stop R (ev.finish entity v) (ev'.finish entity w) := by
  refine (Eval.Agree.ofExcept (h.realize hR)).bind fun hsettled => ?_
  exact (h.runModifiers entity.aliasName entity.modifiers hsettled).mono fun hab => hab.1

theorem materialize (h : Simulation Stop ev ev' R) (entity : Entity) (hR : R v w) :
    Agree Stop R (ev.materialize entity v) (ev'.materialize entity w) := by
  cases h.shape hR with
  | scalar hs =>
    rw [Evaluator.materialize_scalar _ hs, Evaluator.materialize_scalar _ hs]
    exact .ok hR
  | sequence ho ho' =>
    rw [Evaluator.materialize_sequence _ ho, Evaluator.materialize_sequence _ ho']
    exact .ok hR
  | object => exact .ok hR
  | record => exact .ok hR
  | deferred hc => exact (hc entity).of_never

theorem prepare (h : Simulation Stop ev ev' R) (entity : Entity) (hR : R v w) :
    Agree Stop R (ev.prepare entity v) (ev'.prepare entity w) :=
  (h.materialize entity hR).bind h.normalize

/-- Related roots hold related values, or neither of them has properties. -/
theorem locate (h : Simulation Stop ev ev' R) (entity : Entity) (hR : R v w) :
    Eval.Agree Stop (Option.Rel R) (ev.locate v entity) (ev'.locate w entity) := by
  cases h.shape hR with
  | scalar hs =>
    rw [Evaluator.locate_scalar _ hs, Evaluator.locate_scalar _ hs]
    exact (Eval.Agree.report _).bind fun _ => .pure .none
  | sequence ho ho' hitems =>
    rw [Evaluator.locate_sequence _ ho, Evaluator.locate_sequence _ ho']
    refine (Eval.Agree.ofExcept ?_).map .some
    exact hitems.of_never.bind fun hitems => h.getKey (h.array hitems) entity.path
  | object => exact (Eval.Agree.ofExcept (h.getKey hR entity.path)).map .some
  | record => exact (Eval.Agree.ofExcept (h.getValue hR entity.path)).map .some
  | deferred hc => exact (Eval.Agree.ofExcept (hc entity).of_never).map .some

/-! ### Queries -/

/-- Selections with related values for the same aliases, or none. -/
abbrev Selected (R : Value → Value → Prop) : Selection → Selection → Prop :=
  Option.Rel (Entries.Related R)

theorem toValue (h : Simulation Stop ev ev' R) {s s' : Selection} (hs : Selected R s s') :
    R s.toValue s'.toValue := by
  cases hs with
  | none => exact h.null
  | some he => exact h.object he

/-- A sub-query that treats related values alike does so for what they hold. -/
theorem project (h : Simulation Stop ev ev' R) {subQuery subQuery' : Value → Eval Selection}
    (hsub : ∀ {v w}, R v w → Eval.Agree Stop (Selected R) (subQuery v) (subQuery' w))
    (hR : R v w) : Eval.Agree Stop R (ev.project subQuery v) (ev'.project subQuery' w) := by
  have hvalue : ∀ v w, R v w →
      Eval.Agree Stop R (Selection.toValue <$> subQuery v) (Selection.toValue <$> subQuery' w) :=
    fun _ _ hR => (hsub hR).map h.toValue
  cases h.shape hR with
  | scalar hs =>
    rw [Evaluator.project_scalar _ hs, Evaluator.project_scalar _ hs]
    exact hvalue _ _ hR
  | sequence ho ho' hitems =>
    rw [Evaluator.project_sequence _ ho, Evaluator.project_sequence _ ho']
    refine (Eval.Agree.ofExcept hitems.of_never).bind fun hitems => ?_
    exact (Eval.Agree.forEach hvalue hitems).map h.array
  | object he =>
    unfold Evaluator.project
    rw [← h.recursion]
    cases ev.recursion with
    | direct => exact hvalue _ _ hR
    | elementWise =>
      refine (Eval.Agree.forEach (fun _ _ hab => ?_) he).map h.object
      exact (hsub hab.2).map fun hs => ⟨hab.1, h.toValue hs⟩
  | record => exact hvalue _ _ hR
  | deferred => exact hvalue _ _ hR

mutual

/-- A query selects related values from related roots. -/
theorem select (h : Simulation Stop ev ev' R) : ∀ (query : List Entity) {v w : Value}, R v w →
    Eval.Agree Stop (Selected R) (ev.select query v) (ev'.select query w)
  | [], _, _, _ => by
    unfold Evaluator.select
    exact .pure (.some .nil)
  | entity :: query, v, w, hR => by
    unfold Evaluator.select
    refine (h.locate entity hR).bind fun hfound => ?_
    cases hfound with
    | none => exact .pure .none
    | some hR' =>
      refine (evaluate h entity hR').bind fun hvalue => ?_
      refine (select h query hR).bind fun hothers => .pure ?_
      cases hothers with
      | none => exact .none
      | some he => exact .some (.cons ⟨rfl, hvalue⟩ he)

/-- An entity makes related values of related ones. -/
theorem evaluate (h : Simulation Stop ev ev' R) : ∀ (entity : Entity) {v w : Value}, R v w →
    Eval.Agree Stop R (ev.evaluate entity v) (ev'.evaluate entity w)
  | ⟨aliasName, path, identifier, children, modifiers⟩, v, w, hR => by
    unfold Evaluator.evaluate
    refine (Eval.Agree.ofExcept (h.prepare _ hR)).bind fun hprepared => ?_
    cases children with
    | none => exact h.finish _ hprepared
    | some query =>
      dsimp only
      split
      · exact h.finish _ hprepared
      · exact (h.project (select h query) hprepared).bind (h.finish _)

end

end Simulation

/-- Roots that are related values, or resolvers that give such. -/
inductive Root.Related (Stop : EvalError → Prop) (R : Value → Value → Prop) : Root → Root → Prop
  | value {v w : Value} : R v w → Related Stop R (.value v) (.value w)
  | resolver {resolve resolve' : String → Entity → Except EvalError Value} :
    (∀ path entity, Agree Stop R (resolve path entity) (resolve' path entity)) →
    Related Stop R (.resolver resolve) (.resolver resolve')

/-- A query applied to related roots does the same. -/
theorem Simulation.apply (h : Simulation Stop ev ev' R) (query : Query) {root root' : Root}
    (hR : Root.Related Stop R root root') :
    Eval.Agree Stop (Simulation.Selected R) (ev.apply query root) (ev'.apply query root') := by
  cases hR with
  | value hR => exact h.select query hR
  | resolver hr =>
    have hsame : List.Forall₂ Eq query query := List.forall₂_same.2 fun _ _ => rfl
    refine (Eval.Agree.forEach (fun _ _ hab => ?_) hsame).map .some
    subst hab
    refine (Eval.Agree.ofExcept (hr _ _)).bind fun hvalue => ?_
    exact (h.evaluate _ hvalue).bind fun hvalue => .pure ⟨rfl, hvalue⟩

end NestedQuery
