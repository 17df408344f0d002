/-
# Slicing before and behind a projection

A sub-query goes through an array, or an object taken element by element, at
each place on its own, and the limits that run behind it cut places. So the
elements that the limits drop need not be projected at all: a limited
projection gives what the projection of the slice gives. The converse fails
where an element outside the slice cannot be projected, since the evaluator
projects all of them before it cuts.

Key definitions: `limitText`, `Evaluator.Enters`.
Key theorems: `exists_layout_limits`, `parse_limited_braced`,
`forall₂_slices`, `Eval.Steady.forEach_slices`,
`Evaluator.result_answer_limited`, `apply_sliced_projection`.
-/
import NestedQuery.Proofs.BracketedKeys
import NestedQuery.Proofs.Composition
import NestedQuery.Proofs.Paging
import NestedQuery.Proofs.Records
import NestedQuery.Proofs.Simulation

namespace NestedQuery

open Text Grammar

/-! ### The text of limits -/

/-- A limit as it is written. -/
def limitText (limit : ℕ × Option ℕ) : String :=
  "|limit: " ++ toString limit.1 ++ ", " ++ limit.2.elim "null" toString

/-- A number in front of a layout, unless they grow together. -/
theorem Layout.number {n p : ℕ} {cs : List Char} {ts : List Token} (hn : n < wordSize)
    (hs : ∀ c ∈ cs.head?, Separates c) (h : Layout (p + (toString n).length) cs ts) :
    ∃ token, Size token n ∧ Layout p ((toString n).toList ++ cs) (token :: ts) := by
  rw [← String.length_toList, Numeral.toList_toString] at h
  rw [Numeral.toList_toString]
  have hends : Ends .integer ([] ++ cs) := Ends.append ⟨nofun, rfl⟩ hs
  refine ⟨_, ⟨rfl, ?_⟩, .token blank_nil (spelling_toDigits hn) hends h⟩
  rw [String.toList_ofList]
  exact word?_toDigits hn

/-- The text of a limit is laid out as a modifier behind its sign. -/
theorem exists_layout_limit {limit : ℕ × Option ℕ} (ho : limit.1 < wordSize)
    (hc : ∀ n ∈ limit.2, n < wordSize) {p : ℕ} {cs : List Char} {us : List Token}
    (hs : ∀ c ∈ cs.head?, Separates c) (h : Layout (p + (limitText limit).length) cs us) :
    ∃ pipe ts, pipe.kind = .pipe ∧
      Layout p ((limitText limit).toList ++ cs) (pipe :: (ts ++ us)) ∧
      ∀ behind, IsModifier behind ts (.limit limit.1 limit.2) := by
  obtain ⟨offset, count⟩ := limit
  have hblank : Blank [' '] := by decide
  have hcomma : Separates ',' := by decide
  have hcolon : Separates ':' := by decide
  have hlimit : IsWord "limit".toList := by decide
  -- the text is laid out from its end on
  have hplace : p + (limitText (offset, count)).length =
      p + 1 + "limit".length + 1 + 1 + (toString offset).length + 1 + 1 +
        (count.elim "null" toString).length := by
    have hsign : "|limit: ".length = 8 := rfl
    have hword : "limit".length = 5 := rfl
    have hseparator : ", ".length = 2 := rfl
    simp only [limitText, String.length_append]
    omega
  rw [hplace] at h
  have hcount : ∃ second,
      (∀ behind first comma, Size first offset → comma.kind = .comma →
        Arguments behind [first, comma, second] (offset, count)) ∧
      Layout (p + 1 + "limit".length + 1 + 1 + (toString offset).length + 1 + 1)
        ((count.elim "null" toString).toList ++ cs) (second :: us) := by
    cases count with
    | some n =>
      obtain ⟨second, hsize, hsecond⟩ := Layout.number (hc n rfl) hs h
      exact ⟨second, fun _ _ _ hm hk => .offsetAndCount hm hk hsize, hsecond⟩
    | none =>
      have hnull : IsWord "null".toList := by decide
      exact ⟨_, fun _ _ _ hm hk => .offset hm hk rfl, .word hnull (fun c hc => (hs c hc).1) h⟩
  obtain ⟨second, harguments, hsecond⟩ := hcount
  have hbehind : Layout (p + 1 + "limit".length + 1 + 1 + (toString offset).length) _ _ :=
    .sign (c := ',') rfl (.blanks hblank hsecond)
  obtain ⟨first, hsize, hfirst⟩ := Layout.number ho hcomma.head hbehind
  have hword : Layout (p + 1) _ _ :=
    .word hlimit (fun c hc => (hcolon.head c hc).1)
      (.sign (c := ':') rfl (.blanks hblank hfirst))
  have hchars : (limitText (offset, count)).toList ++ cs =
      '|' :: ("limit".toList ++ ':' :: ([' '] ++ ((toString offset).toList ++
        ',' :: ([' '] ++ ((count.elim "null" toString).toList ++ cs))))) := by
    simp only [limitText, String.toList_append, List.append_assoc]
    rfl
  rw [hchars]
  exact ⟨_, _ :: _ :: [first, _, second], rfl, .sign (c := '|') rfl hword,
    fun behind => .limit rfl rfl rfl (harguments behind first _ hsize rfl)⟩

/-- The modifiers that the limits are. -/
abbrev limitModifiers (limits : List (ℕ × Option ℕ)) : List Modifier :=
  limits.map fun limit => .limit limit.1 limit.2

/-- Nothing grows together with the text of limits. -/
theorem separates_limits {limits : List (ℕ × Option ℕ)} {cs : List Char}
    (hs : ∀ c ∈ cs.head?, Separates c) :
    ∀ c ∈ ((limits.flatMap fun limit => (limitText limit).toList) ++ cs).head?, Separates c := by
  cases limits with
  | nil => exact hs
  | cons limit limits =>
    have hpipe : Separates '|' := by decide
    rw [List.flatMap_cons, limitText]
    simp only [String.toList_append, List.append_assoc]
    exact hpipe.head

/-- The text of some limits is laid out as their modifiers. -/
theorem exists_layout_limits {limits : List (ℕ × Option ℕ)}
    (hlimits : ∀ limit ∈ limits, limit.1 < wordSize ∧ ∀ n ∈ limit.2, n < wordSize) {p : ℕ}
    {cs : List Char} {us : List Token} (hs : ∀ c ∈ cs.head?, Separates c)
    (h : Layout (p + (limits.flatMap fun limit => (limitText limit).toList).length) cs us) :
    ∃ ts, Layout p ((limits.flatMap fun limit => (limitText limit).toList) ++ cs) (ts ++ us) ∧
      ∀ behind, Begins [.openCurly] behind → Modifiers behind ts (limitModifiers limits) := by
  induction limits generalizing p with
  | nil => exact ⟨[], h, fun behind hb => .done (hb.without (by decide))⟩
  | cons limit limits ih =>
    obtain ⟨⟨ho, hc⟩, hothers⟩ := List.forall_mem_cons.1 hlimits
    rw [List.flatMap_cons, List.length_append, ← Nat.add_assoc, String.length_toList] at h
    obtain ⟨ts, hts, hmodifiers⟩ := ih hothers h
    obtain ⟨pipe, us', hpipe, hlayout, hmodifier⟩ :=
      exists_layout_limit ho hc (separates_limits hs) hts
    refine ⟨pipe :: (us' ++ ts), ?_, fun behind hb =>
      .more hpipe (hmodifier _) (hmodifiers behind hb)⟩
    rw [List.flatMap_cons]
    simpa only [List.append_assoc, List.cons_append] using hlayout

/-- A query in braces, with blanks on either side of them. -/
theorem exists_layout_children {q : String} {children : Query} (hb : ¬ Blank q.toList)
    (h : parse q = .ok children) (p : ℕ) :
    ∃ opening closing ts, opening.kind = .openCurly ∧ closing.kind = .closeCurly ∧
      Layout p (' ' :: '\x7b' :: ' ' :: (q.toList ++ [' ', '\x7d']))
        (opening :: (ts ++ [closing])) ∧
      IsQuery [closing] ts children ∧ children.DistinctAliases := by
  obtain ⟨tokens, hscan, hquery, hdistinct⟩ := exists_isQuery hb h
  have hblank : Blank [' '] := by decide
  have hspace : Separates ' ' := by decide
  have hclosing : Layout (p + 3 + 0 + q.toList.length) [' ', '\x7d'] _ :=
    .blanks hblank (.sign rfl (.done blank_nil))
  have hinner := ((Layout.of_scanFrom hscan).shift (p + 3)).append hclosing hspace.head
  refine ⟨_, _, _, rfl, rfl, .blanks hblank (.sign rfl (.blanks hblank hinner)), ?_, hdistinct⟩
  exact (isQuery_shift (p + 3) hquery hdistinct).follows (.inr (begins_cons (by simp)))

/-- A path with modifiers heads an entity, in front of braces. -/
theorem heading_modified {ps ms behind : List Token} {path : String} {modifiers : List Modifier}
    (hpath : ∀ behind, Without .dot behind → Path behind ps path)
    (hmodifiers : Modifiers behind ms modifiers) (hb : Begins [.openCurly] behind) :
    Heading behind (ps ++ ms) ⟨path, path, none, none, modifiers⟩ := by
  have hwithout : ∀ kind, kind ≠ .pipe → kind ∉ [Kind.openCurly] → Without kind (ms ++ behind) :=
    fun kind hk hne => without_append_modifiers hmodifiers hk (hb.without hne)
  have hheading : Heading behind (ps ++ [] ++ [] ++ ms)
      ⟨Option.getD none path, path, none, none, modifiers⟩ :=
    .mk (hpath _ (hwithout .dot (by decide) (by decide)))
      (.absent (hwithout .sharp (by decide) (by decide)))
      (.absent (hwithout .asKeyword (by decide) (by decide))) hmodifiers
  simpa using hheading

/-- Limits behind a path, in front of a query in braces, are the modifiers of the entity. -/
theorem parse_limited_braced {p q : String} {children : Query} (hp : IsPath p)
    {limits : List (ℕ × Option ℕ)}
    (hlimits : ∀ limit ∈ limits, limit.1 < wordSize ∧ ∀ n ∈ limit.2, n < wordSize)
    (hb : ¬ Blank q.toList) (h : parse q = .ok children) :
    parse (p ++ String.join (limits.map limitText) ++ " \x7b " ++ q ++ " \x7d") =
      .ok [⟨p, p, none, some children, limitModifiers limits⟩] := by
  have hspace : Separates ' ' := by decide
  obtain ⟨opening, closing, inner, hopening, hclosing, hbraced, hchildren, hdistinct⟩ :=
    exists_layout_children hb h (0 + p.toList.length +
      (limits.flatMap fun limit => (limitText limit).toList).length)
  obtain ⟨ms, hms, hmodifiers⟩ := exists_layout_limits hlimits hspace.head hbraced
  obtain ⟨ps, hps, hpath⟩ := hp.layout (separates_limits hspace.head) hms
  have hbegins : Begins [.openCurly] (opening :: (inner ++ closing :: [])) :=
    begins_cons (by simp [hopening])
  have hentity := IsEntity.nested (heading_modified hpath (hmodifiers _ hbegins) hbegins) hopening
    hchildren hclosing
  have hquery : IsQuery [] (ps ++ (ms ++ opening :: (inner ++ [closing])))
      [⟨p, p, none, some children, limitModifiers limits⟩] := by
    simpa using IsQuery.last hentity (without_nil _)
  have hjoin : (String.join (limits.map limitText)).toList =
      limits.flatMap fun limit => (limitText limit).toList := by
    simp [List.flatMap_map]
  have hchars : (p ++ String.join (limits.map limitText) ++ " \x7b " ++ q ++ " \x7d").toList =
      p.toList ++ ((limits.flatMap fun limit => (limitText limit).toList) ++
        ' ' :: '\x7b' :: ' ' :: (q.toList ++ [' ', '\x7d'])) := by
    simp only [String.toList_append, hjoin, List.append_assoc]
    rfl
  refine parse_eq_ok_iff.2 ⟨_, (congrArg _ hchars).trans hps.scanFrom_eq, .inr ⟨hquery, ?_, ?_⟩⟩
  · simp [Query.aliases]
  · refine Query.distinctBelow_cons.2 ⟨?_, Query.distinctBelow_nil⟩
    rintro _ ⟨rfl⟩
    exact hdistinct

/-! ### Loops over a slice -/

/-- The same places are cut out of lists that are related pairwise. -/
theorem forall₂_slices {α β : Type} {R : α → β → Prop} (limits : List Modifier) {xs : List α}
    {ys : List β} (h : List.Forall₂ R xs ys) :
    List.Forall₂ R (slices limits xs) (slices limits ys) := by
  induction limits generalizing xs ys with
  | nil => exact h
  | cons limit limits ih =>
    cases limit with
    | limit offset count => exact ih (forall₂_slice offset count h)
    | _ => exact ih h

theorem slices_limitModifiers {α : Type} (limits : List (ℕ × Option ℕ)) (items : List α) :
    slices (limitModifiers limits) items =
      limits.foldl (fun items limit => slice limit.1 limit.2 items) items := by
  induction limits generalizing items with
  | nil => rfl
  | cons limit limits ih => exact ih _

namespace Eval.Steady

variable {α β : Type} {f : α → Eval β} {xs : List α}

/-- A loop over a slice gives the slice of what the loop over all items gives. -/
theorem forEach_slices (hf : ∀ x, Steady (f x)) (limits : List Modifier) {ys : List β}
    {g : Generator} (h : (Eval.forEach f xs g).result = .ok ys) (g' : Generator) :
    (Eval.forEach f (slices limits xs) g').result = .ok (slices limits ys) := by
  have hall := (forEach_eq_ok_iff (fun x _ => hf x) g).1 h
  rw [(forEach fun x _ => hf x).result_eq g' g, forEach_eq_ok_iff (fun x _ => hf x)]
  exact forall₂_slices limits hall

/-- A loop succeeds if its body does for each item, and only then. -/
theorem exists_forEach_iff (hf : ∀ x, Steady (f x)) (g : Generator) :
    (∃ ys, (Eval.forEach f xs g).result = .ok ys) ↔ ∀ x ∈ xs, ∃ y, (f x).Yields y := by
  have hyields : ∀ {x y}, (f x).Yields y ↔ (f x g).result = .ok y := fun {x y} =>
    ⟨fun ⟨g', h⟩ => ((hf x).result_eq g g').trans h, fun h => ⟨g, h⟩⟩
  simp only [forEach_eq_ok_iff (fun x _ => hf x), hyields]
  constructor
  · rintro ⟨ys, hys⟩ x hx
    induction hys with
    | nil => cases hx
    | cons hy _ ih =>
      rcases List.mem_cons.1 hx with rfl | hx
      · exact ⟨_, hy⟩
      · exact ih hx
  · exact exists_forall₂

end Eval.Steady

/-! ### Element by element -/

/-- A sub-query goes through the elements of such a value one by one: the items of an array, or the
values of an object, which keep their keys. -/
inductive Evaluator.Enters (ev : Evaluator) :
    {α : Type} → (List α → Value) → (α → Value) → (α → Value → α) → Prop
  | array : Enters ev .array id fun _ w => w
  | object (hr : ev.recursion = .elementWise) : Enters ev .object Prod.snd fun e w => (e.1, w)

namespace Evaluator

variable {ev : Evaluator} {entity : Entity} {query : Query} {α : Type} {wrap : List α → Value}
  {element : α → Value} {put : α → Value → α}

/-- What a sub-query makes of an element, in its place. -/
def through (ev : Evaluator) (query : Query) (element : α → Value) (put : α → Value → α) (a : α) :
    Eval α :=
  (fun selection => put a selection.toValue) <$> ev.select query (element a)

theorem Enters.wraps (h : ev.Enters wrap element put) : Value.Wraps wrap := by
  cases h with
  | array => exact .array
  | object hr => exact .object

/-- The default steps leave such a value as it is. -/
theorem normalize_wrap_of_mem_default (hwrap : Value.Wraps wrap)
    (hdefault : ∀ step ∈ ev.normalizers, step ∈ Normalizer.default) (items : List α) :
    normalize ev.normalizers (wrap items) = .ok (wrap items) := by
  refine normalize_eq_self fun step hs => ?_
  rcases List.mem_pair.1 (hdefault step hs) with rfl | rfl <;> cases hwrap <;> rfl

theorem descend_wrap (h : ev.Enters wrap element put) (hc : entity.children = some query)
    (hne : query ≠ []) (items : List α) :
    ev.descend entity (wrap items) =
      wrap <$> Eval.forEach (ev.through query element put) items := by
  have hproject : ev.descend entity (wrap items) = ev.project (ev.select query) (wrap items) := by
    simp [descend, hc, hne]
  rw [hproject]
  cases h with
  | array => rfl
  | object hr =>
    simp only [project, hr]
    rfl

theorem steady_through (hq : query.DrawsNothing) (a : α) :
    (ev.through query element put a).Steady :=
  (steady_select ev query hq _).map _

theorem yields_through_iff {a : α} :
    (∃ b, (ev.through query element put a).Yields b) ↔
      ∃ selection, (ev.select query (element a)).Yields selection := by
  constructor
  · rintro ⟨b, hb⟩
    obtain ⟨selection, hselection, -⟩ := Eval.yields_map hb
    exact ⟨selection, hselection⟩
  · rintro ⟨selection, hselection⟩
    exact ⟨_, hselection.map _⟩

/-- An entity projects all elements, and then its limits cut them. -/
theorem result_apply_limited (h : ev.Enters wrap element put) (hq : query.DrawsNothing)
    (hne : query ≠ []) (hc : entity.children = some query)
    (hm : ∀ m ∈ entity.modifiers, m.reorders = false)
    (hn : ∀ items, normalize ev.normalizers (wrap items) = .ok (wrap items))
    {entries : Entries Value} {items : List α} (hget : entries.get? entity.path = some (wrap items))
    (g : Generator) :
    (ev.apply [entity] (.value (.object entries)) g).result =
      (Eval.forEach (ev.through query element put) items g).result.map fun results =>
        some [(entity.aliasName, wrap (slices entity.modifiers results))] := by
  have hwrap := h.wraps
  have hprepare : ev.prepare entity (wrap items) = .ok (wrap items) := by
    cases hwrap <;> exact hn items
  have hfinish : ∀ results g, (ev.finish entity (wrap results) g).result =
      .ok (wrap (slices entity.modifiers results)) := by
    intro results g
    have hrealize : ev.finish entity (wrap results) =
        runModifiers ev.accessor entity.aliasName entity.modifiers (wrap results) := by
      cases hwrap <;> rfl
    rw [hrealize, runModifiers_wrap ev.accessor entity.aliasName hm hwrap]
  have hsteady : (wrap <$> Eval.forEach (ev.through query element put) items).Steady :=
    (Eval.Steady.forEach fun a _ => steady_through hq a).map wrap
  rw [apply_singleton (Root.hasProperties_object entries),
    answer_object (ev.accessor.getKey_of_get? hget) hprepare, descend_wrap h hc hne,
    Eval.map_result, hsteady.result_bind, Eval.map_result]
  cases (Eval.forEach (ev.through query element put) items g).result with
  | error e => rfl
  | ok results => exact congrArg (Except.map _) (hfinish results g)

end Evaluator

/-- A text of more than blanks says more than an empty query. -/
theorem ne_nil_of_parse {q : String} {query : Query} (hb : ¬ Blank q.toList)
    (h : parse q = .ok query) : query ≠ [] := by
  obtain ⟨tokens, -, hquery, -⟩ := exists_isQuery hb h
  cases hquery with
  | last => exact List.cons_ne_nil _ _
  | more => exact List.cons_ne_nil _ _

/-- **Slicing commutes with projection.** Let the property under a path be an array, or an object
that a sub-query takes element by element, and let normalizing leave such values as they are, as
the default steps do. If a query in braces behind limits gives a result, so does the query in braces
on the property that these limits have sliced, and it gives the same under the path. The first one
gives a result if the query does for each element of the property, and the second one if it does for
each element of the slice; what is outside the slice does not matter to it. -/
theorem apply_sliced_projection {p q : String} {query : Query} (hp : IsPath p)
    (hb : ¬ Blank q.toList) (hparse : parse q = .ok query) (hq : query.DrawsNothing)
    {limits : List (ℕ × Option ℕ)}
    (hlimits : ∀ limit ∈ limits, limit.1 < wordSize ∧ ∀ n ∈ limit.2, n < wordSize)
    (ev : Evaluator) {α : Type} {wrap : List α → Value} {element : α → Value}
    {put : α → Value → α} (h : ev.Enters wrap element put)
    (hn : ∀ items, normalize ev.normalizers (wrap items) = .ok (wrap items)) (items : List α) :
    let sliced := limits.foldl (fun items limit => slice limit.1 limit.2 items) items
    let projects (a : α) : Prop := ∃ selection, (ev.select query (element a)).Yields selection
    ∃ limited bare,
      parse (p ++ String.join (limits.map limitText) ++ " \x7b " ++ q ++ " \x7d") = .ok limited ∧
      parse (p ++ " \x7b " ++ q ++ " \x7d") = .ok bare ∧
      let first (g : Generator) :=
        (ev.apply limited (.value (.object [(p, wrap items)])) g).result
      let second (g : Generator) :=
        (ev.apply bare (.value (.object [(p, wrap sliced)])) g).result
      (∀ selection g g', first g = .ok selection →
        second g' = .ok selection ∧ ∃ results, selection = some [(p, wrap results)]) ∧
      (∀ g, (∃ selection, first g = .ok selection) ↔ ∀ a ∈ items, projects a) ∧
      ∀ g, (∃ selection, second g = .ok selection) ↔ ∀ a ∈ sliced, projects a := by
  intro sliced projects
  have hne := ne_nil_of_parse hb hparse
  have hno : ∀ m ∈ limitModifiers limits, m.reorders = false :=
    List.forall_mem_map.2 fun _ _ => rfl
  have hbare : parse (p ++ " \x7b " ++ q ++ " \x7d") = .ok [⟨p, p, none, some query, []⟩] := by
    have hnone := parse_limited_braced hp (List.forall_mem_nil _) hb hparse
    rwa [List.map_nil, String.join_nil, String.append_empty] at hnone
  refine ⟨_, _, parse_limited_braced hp hlimits hb hparse, hbare, ?_⟩
  intro first second
  have hsteady : ∀ a, (ev.through query element put a).Steady :=
    fun a => Evaluator.steady_through hq a
  let loop (elements : List α) (g : Generator) :=
    (Eval.forEach (ev.through query element put) elements g).result
  have hfirst : ∀ g, first g = (loop items g).map fun results =>
      some [(p, wrap (slices (limitModifiers limits) results))] := fun g =>
    Evaluator.result_apply_limited h hq hne rfl hno hn (by simp [Entries.get?]) g
  have hsecond : ∀ g, second g = (loop sliced g).map fun results => some [(p, wrap results)] :=
    fun g => Evaluator.result_apply_limited h hq hne rfl (by simp) hn (by simp [Entries.get?]) g
  have hloop : ∀ elements g, (∃ results, loop elements g = .ok results) ↔
      ∀ a ∈ elements, projects a := by
    intro elements g
    simp only [loop, Eval.Steady.exists_forEach_iff hsteady, Evaluator.yields_through_iff]
    exact Iff.rfl
  refine ⟨fun selection g g' hselection => ?_, fun g => ?_, fun g => ?_⟩
  · rw [hfirst, map_eq_ok_iff] at hselection
    obtain ⟨results, hresults, rfl⟩ := hselection
    have hcut := Eval.Steady.forEach_slices hsteady (limitModifiers limits) hresults g'
    rw [slices_limitModifiers] at hcut
    refine ⟨?_, _, rfl⟩
    rw [hsecond, show loop sliced g' = _ from hcut]
    rfl
  · rw [hfirst, exists_map_eq_ok_iff, hloop]
  · rw [hsecond, exists_map_eq_ok_iff, hloop]

/-- The last of three rows misses the key, but it is not one of the first two. -/
theorem apply_sliced_projection_rows :
    let row (n : Int64) : Value := .object [("n", .integer n)]
    let strict : Evaluator := { accessor := { strict := true } }
    let result (query : Query) (rows : List Value) :=
      (strict.apply query (.value (.object [("rows", .array rows)])) ⟨0⟩).result
    ∃ limited bare, parse "rows|limit: 0, 2 \x7b n \x7d" = .ok limited ∧
      parse "rows \x7b n \x7d" = .ok bare ∧
      (∃ selection, result bare [row 1, row 2] = .ok selection) ∧
      ¬ ∃ selection, result limited [row 1, row 2, .object []] = .ok selection := by
  intro row strict result
  have hpath : IsPath "rows" := isPath_of_isName (by decide)
  have hparse : parse "n" = .ok [.ofPath "n"] := by cbv
  obtain ⟨limited, bare, hlimited, hbare, -, hfirst, hsecond⟩ :=
    apply_sliced_projection hpath (by decide) hparse (by decide)
      (by decide : ∀ limit ∈ [((0 : ℕ), some 2)], limit.1 < wordSize ∧ ∀ n ∈ limit.2, n < wordSize)
      strict .array (Evaluator.normalize_wrap_of_mem_default .array fun _ h => h)
      [row 1, row 2, .object []]
  have hrow : ∀ n, (strict.select [.ofPath "n"] (row n) ⟨0⟩).result =
      .ok (some [("n", .integer n)]) := fun n => rfl
  have hmissing : ∀ g, (strict.select [.ofPath "n"] (.object []) g).result.isOk = false :=
    fun g => rfl
  refine ⟨limited, bare, hlimited, hbare, (hsecond ⟨0⟩).2 ?_, fun h => ?_⟩
  · exact List.forall_mem_cons.2 ⟨⟨_, ⟨0⟩, hrow 1⟩, List.forall_mem_singleton.2 ⟨_, ⟨0⟩, hrow 2⟩⟩
  · obtain ⟨selection, g, hg⟩ := (hfirst ⟨0⟩).1 h (.object []) (by simp)
    have hno := hmissing g
    rw [show (strict.select [.ofPath "n"] (.object []) g).result = .ok selection from hg] at hno
    cases hno

end NestedQuery
