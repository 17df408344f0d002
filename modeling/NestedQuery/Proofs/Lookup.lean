/-
# Rows by identifier

A source hands out one row of a table for an identifier, and all rows
without one. The two agree. What is handed out for an identifier is the item
of all rows at the place of the first row with that id; and what a query
makes of it is what the query makes of that item, since no query looks at
the handle of a record, but reads its attributes only.

Key definitions: `Source.HasId`, `Source.IsFirst`, `Value.IsRecordRow`.
Key theorems: `Source.find?_eq_some_iff`, `Source.find?_eq_none_iff`,
`Evaluator.select_record`, `Source.fetchOne_agrees_fetchAll`.
-/
import NestedQuery.Proofs.PropertyPath
import NestedQuery.Proofs.ResultShape
import NestedQuery.Proofs.Steady
import NestedQuery.Source

namespace NestedQuery
namespace Source

/-! ### The first row with an id -/

/-- The id of the row can be read. -/
def ReadsId (idField : String) (row : Value) : Prop :=
  ∃ id, Accessor.getValue {} row idField = .ok id

/-- The id of the row is this text, or the whole number of this decimal numeral. -/
def HasId (idField identifier : String) (row : Value) : Prop :=
  ∃ id, Accessor.getValue {} row idField = .ok id ∧
    ((∃ n : Int64, id = .integer n ∧ toString n.toInt = identifier) ∨ id = .string identifier)

/-- The row at this place is the first one with the id; the ids before it were read. -/
structure IsFirst (idField identifier : String) (rows : List Value) (i : Nat) (row : Value) :
    Prop where
  isRow : rows[i]? = some row
  hasId : HasId idField identifier row
  before {j : Nat} {other : Value} : j < i → rows[j]? = some other →
    ReadsId idField other ∧ ¬ HasId idField identifier other

variable {idField table identifier : String} {handle : Nat} {row : Value} {rows : List Value}

theorem isId_iff {id : Value} :
    isId identifier id ↔
      (∃ n : Int64, id = .integer n ∧ toString n.toInt = identifier) ∨ id = .string identifier := by
  cases id <;> simp [isId]

theorem find?_cons_of_hasId (h : HasId idField identifier row) :
    find? idField table identifier handle (row :: rows) =
      .ok (some (toRecord handle table row)) := by
  obtain ⟨id, hid, his⟩ := h
  simp [find?, hid, isId_iff.2 his]

theorem find?_cons_of_not_hasId (hr : ReadsId idField row)
    (h : ¬ HasId idField identifier row) :
    find? idField table identifier handle (row :: rows) =
      find? idField table identifier (handle + 1) rows := by
  obtain ⟨id, hid⟩ := hr
  have hne : ¬ isId identifier id := fun his => h ⟨id, hid, isId_iff.1 his⟩
  simp [find?, hid, hne]

theorem find?_cons_of_not_readsId (table identifier : String) (handle : Nat) (rows : List Value)
    (h : ¬ ReadsId idField row) :
    ∃ e, find? idField table identifier handle (row :: rows) = .error e := by
  cases hid : Accessor.getValue {} row idField with
  | error e => exact ⟨e, by simp [find?, hid]⟩
  | ok id => exact (h ⟨id, hid⟩).elim

theorem isFirst_zero_iff {other : Value} :
    IsFirst idField identifier (row :: rows) 0 other ↔
      other = row ∧ HasId idField identifier row := by
  constructor
  · rintro ⟨hrow, hid, -⟩
    cases hrow
    exact ⟨rfl, hid⟩
  · rintro ⟨rfl, hid⟩
    exact ⟨rfl, hid, nofun⟩

theorem isFirst_succ_iff {i : Nat} {other : Value} :
    IsFirst idField identifier (row :: rows) (i + 1) other ↔
      (ReadsId idField row ∧ ¬ HasId idField identifier row) ∧
        IsFirst idField identifier rows i other := by
  constructor
  · rintro ⟨hrow, hid, hbefore⟩
    exact ⟨hbefore (Nat.zero_lt_succ i) rfl, hrow, hid,
      fun hj hother => hbefore (Nat.succ_lt_succ hj) hother⟩
  · rintro ⟨hfirst, hrow, hid, hbefore⟩
    refine ⟨hrow, hid, fun {j} {other} hj hother => ?_⟩
    cases j with
    | zero =>
      cases hother
      exact hfirst
    | succ j => exact hbefore (Nat.lt_of_succ_lt_succ hj) hother

/-- What is found is the first row with the id. -/
theorem find?_eq_some_iff {found : Value} :
    find? idField table identifier handle rows = .ok (some found) ↔
      ∃ i row, IsFirst idField identifier rows i row ∧
        found = toRecord (handle + i) table row := by
  induction rows generalizing handle with
  | nil =>
    constructor
    · intro h
      cases h
    · rintro ⟨i, row, ⟨h, -, -⟩, -⟩
      cases h
  | cons row rows ih =>
    constructor
    · intro h
      by_cases hid : HasId idField identifier row
      · rw [find?_cons_of_hasId hid] at h
        cases h
        exact ⟨0, row, isFirst_zero_iff.2 ⟨rfl, hid⟩, rfl⟩
      · by_cases hr : ReadsId idField row
        · rw [find?_cons_of_not_hasId hr hid, ih] at h
          obtain ⟨i, other, hfirst, rfl⟩ := h
          refine ⟨i + 1, other, isFirst_succ_iff.2 ⟨⟨hr, hid⟩, hfirst⟩, ?_⟩
          rw [Nat.add_right_comm]
          rfl
        · obtain ⟨e, he⟩ := find?_cons_of_not_readsId table identifier handle rows hr
          rw [he] at h
          cases h
    · rintro ⟨i, other, hfirst, rfl⟩
      cases i with
      | zero =>
        obtain ⟨rfl, hid⟩ := isFirst_zero_iff.1 hfirst
        rw [find?_cons_of_hasId hid]
        rfl
      | succ i =>
        obtain ⟨⟨hr, hid⟩, hfirst⟩ := isFirst_succ_iff.1 hfirst
        rw [find?_cons_of_not_hasId hr hid, ih]
        exact ⟨i, other, hfirst, by rw [Nat.add_right_comm]; rfl⟩

/-- Nothing is found if all ids can be read and none is the one. -/
theorem find?_eq_none_iff :
    find? idField table identifier handle rows = .ok none ↔
      ∀ row ∈ rows, ReadsId idField row ∧ ¬ HasId idField identifier row := by
  induction rows generalizing handle with
  | nil => simp [find?]
  | cons row rows ih =>
    rw [List.forall_mem_cons]
    by_cases hid : HasId idField identifier row
    · rw [find?_cons_of_hasId hid]
      simp [hid]
    · by_cases hr : ReadsId idField row
      · rw [find?_cons_of_not_hasId hr hid, ih]
        simp [hr, hid]
      · obtain ⟨e, he⟩ := find?_cons_of_not_readsId table identifier handle rows hr
        rw [he]
        simp [hr]

theorem getElem?_records (i : Nat) :
    (records table handle rows)[i]? = rows[i]?.map (toRecord (handle + i) table) := by
  induction rows generalizing handle i with
  | nil => rfl
  | cons row rows ih =>
    cases i with
    | zero => rfl
    | succ i =>
      rw [records, List.getElem?_cons_succ, List.getElem?_cons_succ, ih, Nat.add_right_comm]
      rfl

end Source

/-! ### Records and their handles -/

/-- Reading a path looks at the attributes of a record, not at its handle. -/
theorem Accessor.getValue_record (accessor : Accessor) (handle handle' : Nat) (type : String)
    (attributes : Entries Value) (path : String) :
    accessor.getValue (.record handle type attributes) path =
      accessor.getValue (.record handle' type attributes) path := by
  have hsame : ∀ segment, (Value.record handle type attributes).read segment =
      (Value.record handle' type attributes).read segment := fun _ => rfl
  exact accessor.getValue_congr hsame path

namespace Evaluator

variable (ev : Evaluator)

/-- So does a query. -/
theorem select_record (query : List Entity) (handle handle' : Nat) (type : String)
    (attributes : Entries Value) :
    ev.select query (.record handle type attributes) =
      ev.select query (.record handle' type attributes) := by
  refine ev.select_congr fun entity _ => ?_
  unfold locate
  rw [Accessor.getValue_record]

/-! ### What an entity without modifiers makes of one value and of many -/

/-- What a sub-query makes of one item, which an empty one takes as it is. -/
def single (query : List Entity) (item : Value) : Eval Value :=
  if query.isEmpty then pure item else Selection.toValue <$> ev.select query item

theorem steady_single {query : List Entity} (hq : Query.DrawsNothing query) (item : Value) :
    (ev.single query item).Steady := by
  unfold single
  split
  · exact .pure item
  · exact (steady_select ev query hq item).map _

variable {ev} {aliasName path : String} {identifier : Option String} {query : List Entity}
  {v : Value}

theorem finish_bare {entity : Entity} (hm : entity.modifiers = []) (hv : v.Realized) :
    ev.finish entity v = pure v := by
  unfold finish
  rw [hv.realize, hm]
  rfl

theorem map_bind_finish {α : Type} {entity : Entity} (hm : entity.modifiers = []) (x : Eval α)
    {f : α → Value} (hf : ∀ a, (f a).Realized) : (f <$> x) >>= ev.finish entity = f <$> x := by
  rw [map_eq_pure_bind, bind_assoc]
  congr 1
  funext a
  rw [pure_bind, finish_bare hm (hf a)]

theorem realized_toValue (s : Selection) : s.toValue.Realized := by
  cases s with
  | none => exact Value.realized_scalar rfl
  | some entries => exact Value.realized_object entries

theorem evaluate_prepared {modifiers : List Modifier} {w : Value}
    (h : ev.prepare ⟨aliasName, path, identifier, some query, modifiers⟩ v = .ok w) :
    ev.evaluate ⟨aliasName, path, identifier, some query, modifiers⟩ v =
      (if query.isEmpty then pure w else ev.project (ev.select query) w) >>=
        ev.finish ⟨aliasName, path, identifier, some query, modifiers⟩ :=
  evaluate_of_prepare ev h

theorem evaluate_single (hp : ev.prepare ⟨aliasName, path, identifier, some query, []⟩ v = .ok v)
    (hs : ev.project (ev.select query) v = Selection.toValue <$> ev.select query v)
    (hv : v.Realized) :
    ev.evaluate ⟨aliasName, path, identifier, some query, []⟩ v = ev.single query v := by
  rw [evaluate_prepared hp, single]
  split
  · exact finish_bare rfl hv
  · rw [hs]
    exact map_bind_finish rfl _ realized_toValue

theorem evaluate_record (hn : ev.normalizers = Normalizer.default) (handle : Nat) (type : String)
    (attributes : Entries Value) :
    ev.evaluate ⟨aliasName, path, identifier, some query, []⟩ (.record handle type attributes) =
      ev.single query (.record handle type attributes) := by
  refine evaluate_single ?_ rfl nofun
  unfold prepare
  rw [hn]
  rfl

theorem evaluate_null (hn : ev.normalizers = Normalizer.default) :
    ev.evaluate ⟨aliasName, path, identifier, some query, []⟩ .null = ev.single query .null := by
  refine evaluate_single ?_ rfl nofun
  unfold prepare
  rw [hn]
  rfl

/-- Of a collection it makes an array, item by item. -/
theorem yields_evaluate_collection (hn : ev.normalizers = Normalizer.default) {handle : Nat}
    {items : List Value} {result : Value}
    (h : (ev.evaluate ⟨aliasName, path, identifier, some query, []⟩
      (.collection handle (.ok items))).Yields result) :
    ∃ results, result = .array results ∧
      List.Forall₂ (fun item r => (ev.single query item).Yields r) items results := by
  have hp : ev.prepare ⟨aliasName, path, identifier, some query, []⟩
      (.collection handle (.ok items)) = .ok (.array items) := by
    unfold prepare
    rw [hn]
    rfl
  rw [evaluate_prepared hp] at h
  split at h
  · next hq =>
    rw [pure_bind, finish_bare rfl (Value.realized_array items), Eval.yields_pure_iff] at h
    refine ⟨items, h, List.forall₂_same.2 fun item _ => ?_⟩
    rw [single, if_pos hq, Eval.yields_pure_iff]
  · next hq =>
    unfold project at h
    rw [map_bind_finish rfl _ Value.realized_array] at h
    obtain ⟨results, hr, rfl⟩ := Eval.yields_map h
    refine ⟨results, rfl, (Eval.forall₂_of_yields_forEach hr).imp fun item r hitem => ?_⟩
    rwa [single, if_neg hq]

/-! ### Resolvers asked for one entity -/

theorem apply_resolver_one (ev : Evaluator) {entity : Entity} {v : Value}
    {resolve : String → Entity → Except EvalError Value} (h : resolve entity.path entity = .ok v) :
    ev.apply [entity] (.resolver resolve) =
      (fun value => some [(entity.aliasName, value)]) <$> ev.evaluate entity v := by
  have hresolved : ∀ k : Value → Eval (String × Value),
      Eval.ofExcept (resolve entity.path entity) >>= k = k v := by
    intro k
    rw [h]
    rfl
  unfold apply
  simp only [Eval.forEach, hresolved, map_eq_pure_bind, bind_assoc, pure_bind]

end Evaluator
/-! ### Sources -/

/-- The row is handed out as a record. -/
def Value.IsRecordRow (row : Value) : Prop :=
  (∃ entries, row = .object entries) ∨
    ∃ handle type attributes, row = .record handle type attributes

namespace Source

variable {source : Source} {table identifier : String} {first handle : Nat} {row : Value}

/-- What is handed out of such a row depends on the handle in its own handle only. -/
theorem exists_toRecord (h : row.IsRecordRow) (table : String) :
    ∃ (own : Nat → Nat) (type : String) (attributes : Entries Value),
      ∀ handle, toRecord handle table row = .record (own handle) type attributes := by
  obtain ⟨entries, rfl⟩ | ⟨handle, type, attributes, rfl⟩ := h
  · exact ⟨id, table, entries, fun _ => rfl⟩
  · exact ⟨fun _ => handle, type, attributes, fun _ => rfl⟩

theorem fetchOne_eq_some_iff {found : Value} :
    source.fetchOne first table identifier = .ok (some found) ↔
      ∃ rows i row, source.tables.get? table = some rows ∧
        IsFirst source.idField identifier rows i row ∧
        found = toRecord (first + handlesBefore table source.tables + 1 + i) table row := by
  unfold fetchOne
  cases source.tables.get? table with
  | none => simp
  | some rows =>
    simp only [find?_eq_some_iff]
    constructor
    · rintro ⟨i, row, h⟩
      exact ⟨rows, i, row, rfl, h⟩
    · rintro ⟨_, i, row, ⟨rfl⟩, h⟩
      exact ⟨i, row, h⟩

theorem fetchOne_eq_none_iff :
    source.fetchOne first table identifier = .ok none ↔
      ∀ rows, source.tables.get? table = some rows →
        ∀ row ∈ rows, ReadsId source.idField row ∧ ¬ HasId source.idField identifier row := by
  unfold fetchOne
  cases source.tables.get? table with
  | none => simp
  | some rows => simp [find?_eq_none_iff]

/-- The items of all rows of a table. -/
def items (source : Source) (first : Nat) (table : String) (rows : List Value) : List Value :=
  records table (first + handlesBefore table source.tables + 1) rows

theorem getElem?_items {rows : List Value} {i : Nat} (first : Nat) (table : String)
    (h : rows[i]? = some row) :
    (source.items first table rows)[i]? =
      some (toRecord (first + handlesBefore table source.tables + 1 + i) table row) := by
  rw [items, getElem?_records, h]
  rfl

theorem fetchAll_eq {rows : List Value} (h : source.tables.get? table = some rows) :
    source.fetchAll first table = some (.collection (first + handlesBefore table source.tables)
      (.ok (source.items first table rows))) := by
  rw [fetchAll, h]
  rfl

/-! ### Queries on sources -/

variable {ev : Evaluator} {query : List Entity} {rows : List Value} {aliasName : String} {i : Nat}

theorem exists_getElem?_of_forall₂ {α β : Type} {R : α → β → Prop} {xs : List α} {ys : List β}
    {x : α} (h : List.Forall₂ R xs ys) (hx : xs[i]? = some x) : ∃ y, ys[i]? = some y ∧ R x y := by
  induction h generalizing i with
  | nil => cases hx
  | @cons a b _ _ hab _ ih =>
    cases i with
    | zero =>
      cases hx
      exact ⟨b, rfl, hab⟩
    | succ i => exact ih hx

/-- A query that has an entity makes the same of a row under any handle. -/
theorem single_toRecord (hr : row.IsRecordRow) {handle' : Nat}
    (hq : query = [] → handle' = handle) :
    ev.single query (toRecord handle' table row) = ev.single query (toRecord handle table row) := by
  obtain ⟨own, type, attributes, hrecord⟩ := exists_toRecord hr table
  unfold Evaluator.single
  split
  · next he => rw [hq (List.isEmpty_iff.1 he)]
  · rw [hrecord, hrecord, ev.select_record query (own handle') (own handle)]

theorem yields_apply_all (hn : ev.normalizers = Normalizer.default)
    (hrows : source.tables.get? table = some rows) {s : Selection}
    (h : (ev.apply [⟨aliasName, table, none, some query, []⟩] (source.toRoot first)).Yields s) :
    ∃ results, s = some [(aliasName, .array results)] ∧
      List.Forall₂ (fun item r => (ev.single query item).Yields r) (source.items first table rows)
        results := by
  have hresolve : source.resolve first table none =
      .ok (.collection (first + handlesBefore table source.tables)
        (.ok (source.items first table rows))) := by
    rw [resolve, fetchAll_eq hrows]
    rfl
  rw [toRoot, ev.apply_resolver_one hresolve] at h
  obtain ⟨value, hvalue, rfl⟩ := Eval.yields_map h
  obtain ⟨results, rfl, hresults⟩ := Evaluator.yields_evaluate_collection hn hvalue
  exact ⟨results, rfl, hresults⟩

theorem apply_one (hn : ev.normalizers = Normalizer.default)
    (hrows : source.tables.get? table = some rows)
    (hf : IsFirst source.idField identifier rows i row) (hr : row.IsRecordRow) :
    ev.apply [⟨aliasName, table, some identifier, some query, []⟩] (source.toRoot first) =
      (fun value => some [(aliasName, value)]) <$> ev.single query
        (toRecord (first + handlesBefore table source.tables + 1 + i) table row) := by
  have hresolve : source.resolve first table (some identifier) =
      .ok (toRecord (first + handlesBefore table source.tables + 1 + i) table row) := by
    rw [resolve, fetchOne_eq_some_iff.2 ⟨rows, i, row, hrows, hf, rfl⟩]
    rfl
  obtain ⟨own, type, attributes, hrecord⟩ := exists_toRecord hr table
  rw [toRoot, ev.apply_resolver_one hresolve, hrecord, Evaluator.evaluate_record hn]

theorem apply_none (hn : ev.normalizers = Normalizer.default)
    (h : source.fetchOne first table identifier = .ok none) (g : Generator) :
    (ev.apply [⟨aliasName, table, some identifier, some query, []⟩]
        (source.toRoot first) g).result =
      .ok (some [(aliasName, .null)]) := by
  have hresolve : source.resolve first table (some identifier) = .ok .null := by
    rw [resolve, h]
    rfl
  have hnull : (ev.single query .null g).result = .ok .null := by
    cases query with
    | nil => rfl
    | cons entity query =>
      have hselect : (ev.select (entity :: query) .null g).result = .ok none := by
        rw [Evaluator.select_scalar rfl]
      exact Eval.result_map hselect Selection.toValue
  rw [toRoot, ev.apply_resolver_one hresolve, Evaluator.evaluate_null hn]
  exact Eval.result_map hnull _

/-- **One row and all rows agree.** What is fetched for an identifier is the item, of all that is
fetched, at the place of the first row with this id, and nothing is fetched exactly if there is no
such table or row. A query that draws nothing makes the same of the one row, if it is handed out
as a record, as of that item; where nothing is fetched it makes `null`. -/
theorem fetchOne_agrees_fetchAll (source : Source) (table identifier : String) (first : Nat) :
    (∀ found, source.fetchOne first table identifier = .ok (some found) →
      ∃ rows i row all items, source.tables.get? table = some rows ∧
        IsFirst source.idField identifier rows i row ∧ source.fetchAll first table = some all ∧
        Value.realize all = .ok (.array items) ∧ items[i]? = some found) ∧
    ((∀ rows, source.tables.get? table = some rows → ∀ row ∈ rows, ReadsId source.idField row) →
      (source.fetchOne first table identifier = .ok none ↔
        source.tables.get? table = none ∨ ∃ rows, source.tables.get? table = some rows ∧
          ∀ row ∈ rows, ¬ HasId source.idField identifier row)) ∧
    ∀ (accessor : Accessor) (recursion : ObjectRecursion) (query : Query),
      let ev : Evaluator := { accessor, recursion }
      (∀ rows i row, source.tables.get? table = some rows →
        IsFirst source.idField identifier rows i row → row.IsRecordRow → query.DrawsNothing →
        ∀ aliasName g s,
          (ev.apply [⟨aliasName, table, none, some query, []⟩] (source.toRoot first) g).result =
            .ok s →
          ∃ results element, s = some [(aliasName, .array results)] ∧
            results[i]? = some element ∧
            ∀ aliasName' first' g', (query = [] → first' = first) →
              (ev.apply [⟨aliasName', table, some identifier, some query, []⟩]
                (source.toRoot first') g').result = .ok (some [(aliasName', element)])) ∧
      (source.fetchOne first table identifier = .ok none → ∀ aliasName g,
        (ev.apply [⟨aliasName, table, some identifier, some query, []⟩]
          (source.toRoot first) g).result = .ok (some [(aliasName, .null)])) := by
  refine ⟨fun found h => ?_, fun hreads => ?_, fun accessor recursion query => ?_⟩
  · obtain ⟨rows, i, row, hrows, hf, rfl⟩ := fetchOne_eq_some_iff.1 h
    refine ⟨rows, i, row, _, _, hrows, hf, fetchAll_eq hrows, rfl, ?_⟩
    exact getElem?_items first table hf.isRow
  · rw [fetchOne_eq_none_iff]
    cases hrows : source.tables.get? table with
    | none => simp
    | some rows =>
      constructor
      · exact fun h => .inr ⟨rows, rfl, fun row hmem => (h rows rfl row hmem).2⟩
      · rintro (h | ⟨_, ⟨rfl⟩, h⟩)
        · cases h
        · rintro _ ⟨rfl⟩ row hmem
          exact ⟨hreads rows hrows row hmem, h row hmem⟩
  · intro ev
    refine ⟨fun rows i row hrows hf hr hd aliasName g s hs => ?_, fun h aliasName g => ?_⟩
    · obtain ⟨results, rfl, hresults⟩ := yields_apply_all rfl hrows ⟨g, hs⟩
      obtain ⟨element, helement, hyields⟩ := exists_getElem?_of_forall₂ hresults
        (getElem?_items first table hf.isRow)
      refine ⟨results, element, rfl, helement, fun aliasName' first' g' hfirst => ?_⟩
      have hhandle : query = [] →
          first' + handlesBefore table source.tables + 1 + i =
            first + handlesBefore table source.tables + 1 + i := fun hq => by rw [hfirst hq]
      rw [apply_one rfl hrows hf hr, single_toRecord hr hhandle]
      exact Eval.result_map (((ev.steady_single hd _).yields_iff g').1 hyields) _
    · exact apply_none rfl h g

example :
    let ada : Value := .object [("id", .string "7"), ("name", .string "Ada")]
    let source : Source := ⟨"blog", "id", [("users", [.object [("id", .integer 1)], ada])]⟩
    let name : Entity := ⟨"name", "name", none, none, []⟩
    (Evaluator.apply {} [⟨"users", "users", some "7", some [name], []⟩] (source.toRoot 0)
      ⟨0⟩).result = .ok (some [("users", .object [("name", .string "Ada")])]) := by
  cbv

end Source
end NestedQuery
