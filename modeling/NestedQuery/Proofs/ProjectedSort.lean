/-
# Sorting by a projected path

Modifiers run behind the sub-query, so a sort reads its keys from the rows
that were projected. A row that was projected by a path has one key, which is
the path itself. If the path is one name, sorting by it finds that key, and
the rows end up in the order of their values. If it has a point, projecting
tries the key as it is before it takes it apart, but sorting does not: it
looks for the first of the names, which no row has, so all rows tie and stay
in the order in which they came.

Key definitions: `Query.projected`, `projectedRow`.
Key theorems: `parse_sorted`, `parse_projected`, `Accessor.getValue_row`,
`Accessor.getValue_dotted_row`, `Evaluator.result_apply_projected`,
`apply_sort_projected`.
-/
import NestedQuery.Proofs.EveryKey
import NestedQuery.Proofs.PropertyPath
import NestedQuery.Proofs.StableSort

namespace NestedQuery

open Text Grammar

variable {name path : String}

/-- The items under a name, of each of which the path is read, sorted by the path. -/
def Query.projected (name path : String) : Query :=
  [⟨name, name, none, some [.ofPath path], [.sort [⟨path, .ascending⟩]]⟩]

/-- The row that has this value under the path. -/
def projectedRow (path : String) (v : Value) : Value := .object [(path, v)]

/-! ### The text of the query -/

/-- A name, which is not asked for anything but a sort by the path, heads an entity. -/
theorem heading_sorted {word pipe sort colon : Token} {ts behind : List Token}
    (hword : word.kind ∈ Parser.nameKinds) (hpipe : pipe.kind = .pipe)
    (hsort : sort.kind = .identifier) (htext : sort.text = "sort") (hcolon : colon.kind = .colon)
    (hts : ∀ behind, Without .dot behind → Path behind ts path)
    (hbehind : Begins [.openCurly] behind) :
    Heading behind (word :: pipe :: sort :: colon :: ts)
      ⟨word.text, word.text, none, none, [.sort [⟨path, .ascending⟩]]⟩ := by
  have hpiped : Begins [.pipe] (pipe :: (sort :: colon :: ts ++ []) ++ behind) :=
    begins_cons (by simp [hpipe])
  have hterms : Terms behind ts [⟨path, .ascending⟩] :=
    .last (.bare (hts _ (hbehind.without (by decide))) (hbehind.without (by decide)))
      (hbehind.without (by decide))
  have hmodifiers : Modifiers behind (pipe :: (sort :: colon :: ts ++ []))
      [.sort [⟨path, .ascending⟩]] :=
    .more hpipe (.sort hsort htext hcolon hterms) (.done (hbehind.without (by decide)))
  have hname : Path ([] ++ [] ++ (pipe :: (sort :: colon :: ts ++ [])) ++ behind) [word]
      word.text :=
    ⟨[word.text], .last hword fun dot hd hj => hpiped.without (by decide) dot hd hj.1, rfl⟩
  have hheading : Heading behind ([word] ++ [] ++ [] ++ (pipe :: (sort :: colon :: ts ++ [])))
      ⟨Option.getD none word.text, word.text, none, none, [.sort [⟨path, .ascending⟩]]⟩ :=
    .mk hname (.absent (hpiped.without (by decide))) (.absent (hpiped.without (by decide)))
      hmodifiers
  simpa using hheading

/-- The text of a name and a sort by the path is laid out as such a heading. -/
theorem exists_layout_sorted (hn : IsName name) (hp : IsPath path) {cs : List Char}
    {us : List Token} (hs : ∀ c ∈ cs.head?, Separates c)
    (h : Layout (name.length + "|sort: ".length + path.length) cs us) :
    ∃ ts, Layout 0 ((name ++ "|sort: " ++ path).toList ++ cs) (ts ++ us) ∧
      ∀ behind, Begins [.openCurly] behind →
        Heading behind ts ⟨name, name, none, none, [.sort [⟨path, .ascending⟩]]⟩ := by
  have hpipe : Separates '|' := by decide
  have hcolon : Separates ':' := by decide
  have hsort : IsWord "sort".toList := by decide
  have hblank : Blank [' '] := by decide
  -- the text is laid out from its end on
  have hplace : name.length + "|sort: ".length + path.length =
      0 + name.length + 1 + "sort".length + 1 + 1 + path.toList.length := by
    have hsign : "|sort: ".length = 7 := rfl
    have hword : "sort".length = 4 := rfl
    rw [String.length_toList]
    omega
  rw [hplace] at h
  obtain ⟨ts, hts, hpath⟩ := hp.layout hs h
  have hterms : Layout (0 + name.length + 1 + "sort".length) _ _ :=
    .sign (c := ':') rfl (.blanks hblank hts)
  have hmodifier : Layout (0 + name.length) _ _ :=
    .sign (c := '|') rfl (.word hsort (fun c hc => (hcolon.head c hc).1) hterms)
  have hall := Layout.word hn (fun c hc => (hpipe.head c hc).1) hmodifier
  have hchars : (name ++ "|sort: " ++ path).toList ++ cs =
      name.toList ++ '|' :: ("sort".toList ++ ':' :: ([' '] ++ (path.toList ++ cs))) := by
    simp only [String.toList_append, List.append_assoc]
    rfl
  rw [hchars]
  exact ⟨_ :: _ :: _ :: _ :: ts, hall, fun behind hb =>
    heading_sorted (ofWord_mem_nameKinds name) rfl rfl rfl rfl hpath hb⟩

/-- A name and a sort by the path are a query. -/
theorem parse_sorted (hn : IsName name) (hp : IsPath path) :
    parse (name ++ "|sort: " ++ path) =
      .ok [⟨name, name, none, none, [.sort [⟨path, .ascending⟩]]⟩] := by
  have hend : ∀ c ∈ ([] : List Char).head?, Separates c := nofun
  obtain ⟨ts, hts, hheading⟩ := exists_layout_sorted hn hp hend (.done blank_nil)
  rw [List.append_nil, List.append_nil] at hts
  have hquery := IsQuery.last (.bare (hheading [] begins_nil) (without_nil _)) (without_nil _)
  refine parse_eq_ok_iff.2 ⟨_, hts.scanFrom_eq, .inr ⟨hquery, List.nodup_singleton name, ?_⟩⟩
  exact Query.distinctBelow_cons.2 ⟨nofun, Query.distinctBelow_nil⟩

/-- A path in braces, with blanks on either side of them. -/
theorem exists_layout_braced (hp : IsPath path) (p : Nat) :
    ∃ opening closing ts, opening.kind = .openCurly ∧ closing.kind = .closeCurly ∧
      Layout p (' ' :: '\x7b' :: ' ' :: (path.toList ++ [' ', '\x7d']))
        (opening :: (ts ++ [closing])) ∧
      ∀ behind, Without .dot behind → Path behind ts path := by
  have hblank : Blank [' '] := by decide
  have hspace : Separates ' ' := by decide
  have hclosing : Layout (p + 3 + path.toList.length) [' ', '\x7d'] _ :=
    .blanks hblank (.sign rfl (.done blank_nil))
  obtain ⟨ts, hts, hpath⟩ := hp.layout hspace.head hclosing
  exact ⟨_, _, ts, rfl, rfl, .blanks hblank (.sign rfl (.blanks hblank hts)), hpath⟩

/-- The text says the query. -/
theorem parse_projected (hn : IsName name) (hp : IsPath path) :
    parse (name ++ "|sort: " ++ path ++ " \x7b " ++ path ++ " \x7d") =
      .ok (Query.projected name path) := by
  have hspace : Separates ' ' := by decide
  obtain ⟨opening, closing, inner, hopening, hclosing, hbraced, hinner⟩ :=
    exists_layout_braced hp (name.length + "|sort: ".length + path.length)
  obtain ⟨ts, hts, hheading⟩ := exists_layout_sorted hn hp hspace.head hbraced
  have hbegins : Begins [.openCurly] (opening :: (inner ++ closing :: [])) :=
    begins_cons (by simp [hopening])
  have hclosed : Begins [.closeCurly] (closing :: []) := begins_cons (by simp [hclosing])
  have hleaf : Heading (closing :: []) inner (.ofPath path) :=
    .of_path (hinner _ (hclosed.without (by decide))) (hclosed.mono (by decide))
  have hchildren : IsQuery (closing :: []) inner [.ofPath path] :=
    .last (.bare hleaf (hclosed.without (by decide))) (hclosed.without (by decide))
  have hentity := IsEntity.nested (hheading _ hbegins) hopening hchildren hclosing
  have hquery : IsQuery [] (ts ++ opening :: (inner ++ [closing])) (Query.projected name path) := by
    simpa [Query.projected] using IsQuery.last hentity (without_nil _)
  have hchars : (name ++ "|sort: " ++ path ++ " \x7b " ++ path ++ " \x7d").toList =
      (name ++ "|sort: " ++ path).toList ++
        ' ' :: '\x7b' :: ' ' :: (path.toList ++ [' ', '\x7d']) := by
    simp only [String.toList_append, List.append_assoc]
    rfl
  refine parse_eq_ok_iff.2 ⟨_, (congrArg _ hchars).trans hts.scanFrom_eq, .inr ⟨hquery, ?_, ?_⟩⟩
  · exact List.nodup_singleton name
  · refine Query.distinctBelow_cons.2 ⟨?_, Query.distinctBelow_nil⟩
    rintro _ ⟨rfl⟩
    exact ⟨List.nodup_singleton path, Query.distinctBelow_ofPaths [path]⟩

/-! ### Rows -/

namespace Value

theorem get?_entriesOfJson (members : List (String × Json)) (key : String) :
    Entries.get? (entriesOfJson members) key = (Entries.get? members key).map ofJson := by
  induction members with
  | nil => rfl
  | cons m members ih =>
    rw [entriesOfJson, Entries.get?, Entries.get?, ih]
    split <;> rfl

theorem itemsOfJson_eq_map (items : List Json) : itemsOfJson items = items.map ofJson := by
  induction items with
  | nil => rfl
  | cons json items ih =>
    rw [itemsOfJson, ih]
    rfl

/-- What is read of what comes from JSON comes from JSON. -/
theorem exists_read_ofJson (json : Json) (segment : Segment) :
    ∃ found : Option Json, (ofJson json).read segment = .ok (found.map ofJson) := by
  cases json with
  | object members =>
    exact ⟨_, congrArg Except.ok (get?_entriesOfJson members segment.key)⟩
  | array items =>
    refine ⟨segment.position?.bind fun position => items[position]?, ?_⟩
    rw [ofJson, itemsOfJson_eq_map, read, item?]
    cases segment.position? <;> simp
  | integer n =>
    refine ⟨none, ?_⟩
    unfold ofJson ofInt
    split <;> rfl
  | _ => exact ⟨none, rfl⟩

theorem exists_follow_ofJson (json : Json) (segments : List Segment) :
    ∃ found : Option Json, (ofJson json).follow segments = .ok (found.map ofJson) := by
  induction segments generalizing json with
  | nil => exact ⟨some json, rfl⟩
  | cons segment segments ih =>
    obtain ⟨found, hread⟩ := exists_read_ofJson json segment
    rw [follow, hread]
    cases found with
    | none => exact ⟨none, rfl⟩
    | some json => exact ih json

end Value

namespace Accessor

variable {accessor : Accessor}

/-- A lenient accessor reads JSON from JSON. -/
theorem exists_getKey_ofJson (hl : accessor.strict = false) (hp : IsPath path) (json : Json) :
    ∃ found : Json, accessor.getKey (.ofJson json) path = .ok (.ofJson found) := by
  have hmissing : ∀ path, accessor.missing path = .ok (.ofJson .null) := by
    intro path
    rw [missing, hl]
    rfl
  obtain ⟨found, hread⟩ := Value.exists_read_ofJson json (.field path)
  obtain ⟨found', hfollow⟩ := Value.exists_follow_ofJson json ((dotNames path).map .field)
  have hvalue : ∃ found : Json, accessor.getValue (.ofJson json) path = .ok (.ofJson found) := by
    rw [getValue, parsePath_of_isPath hp]
    simp only [hfollow]
    cases found' with
    | none => exact ⟨.null, hmissing path⟩
    | some found' => exact ⟨found', rfl⟩
  rw [getKey, hread]
  cases found with
  | some found => exact ⟨found, rfl⟩
  | none =>
    dsimp only [Option.map]
    split
    · exact hvalue
    · exact ⟨.null, hmissing path⟩

/-- A path of one name reads the entry of this name. -/
theorem getValue_entry (accessor : Accessor) (hp : IsPath path) (h : '.' ∉ path.toList)
    {entries : Entries Value} {v : Value} (hget : entries.get? path = some v) :
    accessor.getValue (.object entries) path = .ok v := by
  have hread : (Value.object entries).read (.field path) = .ok (some v) :=
    congrArg Except.ok hget
  rw [getValue, parsePath_of_isPath_of_not_mem hp h]
  simp only [Value.follow, hread]

/-- A row whose one key is a path of one name has the value of that key at the path. -/
theorem getValue_row (accessor : Accessor) (hp : IsPath path) (h : '.' ∉ path.toList) (v : Value) :
    accessor.getValue (projectedRow path v) path = .ok v :=
  accessor.getValue_entry hp h (if_pos rfl)

/-- A row whose one key is a path with a point has nothing at the path. -/
theorem getValue_dotted_row (hl : accessor.strict = false) (hp : IsPath path)
    (h : '.' ∈ path.toList) (v : Value) :
    accessor.getValue (projectedRow path v) path = .ok .null := by
  obtain ⟨names, hne, hnames, rfl⟩ := hp
  obtain ⟨first, others, rfl⟩ := List.exists_cons_of_ne_nil hne
  have hfirst : ".".intercalate (first :: others) ≠ first := by
    intro he
    rw [he] at h
    exact not_mem_of_isName (hnames first List.mem_cons_self) h
  have hread : (projectedRow (".".intercalate (first :: others)) v).read (.field first) =
      .ok none := congrArg Except.ok (if_neg hfirst)
  rw [getValue, parsePath_of_isPath ⟨_, hne, hnames, rfl⟩, dotNames_intercalate hne hnames]
  simp only [List.map_cons, Value.follow, hread]
  rw [missing, hl]
  rfl

end Accessor

/-! ### Applying the query -/

namespace Evaluator

variable {ev : Evaluator}

/-- The sub-query makes a row of each object. -/
theorem forEach_select_ofPath {α : Type} {objects : List α} {item : α → Entries Value}
    {value : α → Value} (h : ∀ object ∈ objects,
      ev.answer (.value (.object (item object))) (.ofPath path) = pure (value object)) :
    Eval.forEach (fun v => Selection.toValue <$> ev.select [.ofPath path] v)
        (objects.map fun object => .object (item object)) =
      pure (objects.map fun object => projectedRow path (value object)) := by
  induction objects with
  | nil => rfl
  | cons object objects ih =>
    obtain ⟨hobject, hobjects⟩ := List.forall_mem_cons.1 h
    have hrow : ev.select [.ofPath path] (.object (item object)) =
        pure (some [(path, value object)]) := by
      show ev.apply [.ofPath path] (.value (.object (item object))) = _
      rw [apply_singleton (Root.hasProperties_object _), hobject]
      rfl
    rw [List.map_cons, Eval.forEach, hrow, ih hobjects]
    rfl

/-- What a sub-query, or none, makes of the items under a name is what is sorted. -/
theorem result_apply_sorted (hn : ev.normalizers = Normalizer.default) {entries : Entries Value}
    {items rows : List Value} {children : Option (List Entity)} {terms : List SortTerm}
    (hget : entries.get? name = some (.array items))
    (hdescend : ev.descend ⟨name, name, none, children, [.sort terms]⟩ (.array items) =
      pure (.array rows)) (g : Generator) :
    (ev.apply [⟨name, name, none, children, [.sort terms]⟩] (.value (.object entries)) g).result =
      (sortItems ev.accessor terms rows).map fun sorted => some [(name, .array sorted)] := by
  let entity : Entity := ⟨name, name, none, children, [.sort terms]⟩
  have hprepare : ev.prepare entity (.array items) = .ok (.array items) := by
    unfold prepare
    rw [hn]
    rfl
  have hfinish : ev.finish entity (.array rows) =
      runModifier ev.accessor name (.sort terms) (.array rows) := by
    show runModifiers ev.accessor name [.sort terms] (.array rows) = _
    rw [runModifiers]
    exact bind_pure _
  have hanswer : ev.answer (.value (.object entries)) entity =
      runModifier ev.accessor name (.sort terms) (.array rows) := by
    rw [answer_object (ev.accessor.getKey_of_get? hget) hprepare, hdescend, pure_bind, hfinish]
  rw [apply_singleton (Root.hasProperties_object entries), Eval.map_result, hanswer,
    result_runModifier_sort ev.accessor name _ rfl]
  cases sortItems ev.accessor terms rows <;> rfl

/-- The rows are what is sorted. -/
theorem result_apply_rows (hn : ev.normalizers = Normalizer.default) {entries : Entries Value}
    {α : Type} {objects : List α} {item : α → Entries Value} {value : α → Value}
    (hget : entries.get? name = some (.array (objects.map fun object => .object (item object))))
    (h : ∀ object ∈ objects,
      ev.answer (.value (.object (item object))) (.ofPath path) = pure (value object))
    (g : Generator) :
    (ev.apply (Query.projected name path) (.value (.object entries)) g).result =
      (sortItems ev.accessor [⟨path, .ascending⟩]
        (objects.map fun object => projectedRow path (value object))).map
          fun sorted => some [(name, .array sorted)] := by
  refine result_apply_sorted hn hget ?_ g
  show Value.array <$> Eval.forEach _ (objects.map _) = _
  rw [forEach_select_ofPath h]
  rfl

/-- The same for objects of JSON. -/
theorem result_apply_projected (hn : ev.normalizers = Normalizer.default)
    {members : List (String × Json)} {objects : List (List (String × Json))}
    {found : List (String × Json) → Json}
    (hget : Entries.get? members name = some (.array (objects.map .object)))
    (hfound : ∀ object, ev.accessor.getKey (.ofJson (.object object)) path =
      .ok (.ofJson (found object))) (g : Generator) :
    (ev.apply (Query.projected name path) (.value (.ofJson (.object members))) g).result =
      (sortItems ev.accessor [⟨path, .ascending⟩]
        (objects.map fun object => projectedRow path (.ofJson (found object)))).map
          fun sorted => some [(name, .array sorted)] := by
  have hitems : Entries.get? (Value.entriesOfJson members) name =
      some (.array (objects.map fun object => .object (Value.entriesOfJson object))) := by
    rw [Value.get?_entriesOfJson, hget]
    show some (Value.array (Value.itemsOfJson _)) = _
    rw [Value.itemsOfJson_eq_map, List.map_map]
    rfl
  exact result_apply_rows hn hitems (fun object _ => answer_of_getKey hn (hfound object)) g

/-- Under a path that has a point, the rows stay in the order of the objects. -/
theorem result_apply_projected_dotted (hn : ev.normalizers = Normalizer.default)
    (hlenient : ev.accessor.strict = false) (hp : IsPath path) (hdotted : '.' ∈ path.toList)
    {members : List (String × Json)} {objects : List (List (String × Json))}
    {found : List (String × Json) → Json}
    (hget : Entries.get? members name = some (.array (objects.map .object)))
    (hfound : ∀ object, ev.accessor.getKey (.ofJson (.object object)) path =
      .ok (.ofJson (found object))) (g : Generator) :
    (ev.apply (Query.projected name path) (.value (.ofJson (.object members))) g).result =
      .ok (some [(name, .array (objects.map fun object =>
        projectedRow path (.ofJson (found object))))]) := by
  let terms : List SortTerm := [⟨path, .ascending⟩]
  let rows := objects.map fun object => projectedRow path (.ofJson (found object))
  have hread : ∀ (i : Fin rows.length) (k : Fin terms.length),
      ev.accessor.getValue rows[i] terms[k].property = .ok .null := by
    intro i k
    rw [Fin.fin_one_eq_zero k, Fin.getElem_fin, List.getElem_map]
    exact Accessor.getValue_dotted_row hlenient hp hdotted _
  rw [result_apply_projected hn hget hfound, sortItems_of_same_keys ev.accessor hread]
  rfl

end Evaluator

/-- Rows with a path of one name are put in the order of its values. -/
theorem exists_sorted_rows (accessor : Accessor) (hp : IsPath path) (h : '.' ∉ path.toList)
    {objects : List (List (String × Json))} {value : List (String × Json) → Value}
    (hfloat : ∀ object ∈ objects, ∀ x, value object ≠ .float x) :
    ∃ sorted : List (List (String × Json)), sorted.Perm objects ∧
      sortItems accessor [⟨path, .ascending⟩]
        (objects.map fun object => projectedRow path (value object)) =
          .ok (sorted.map fun object => projectedRow path (value object)) ∧
      sorted.Pairwise fun a b => ((value a).order (value b)).isLE := by
  let terms : List SortTerm := [⟨path, .ascending⟩]
  let rows := objects.map fun object => projectedRow path (value object)
  let object (i : Fin rows.length) := objects.get (i.cast (List.length_map _))
  have hrow : ∀ i : Fin rows.length, rows[i] = projectedRow path (value (object i)) := by
    intro i
    simp [rows, object]
  have hread : ∀ (i : Fin rows.length) (k : Fin terms.length),
      accessor.getValue rows[i] terms[k].property = .ok (value (object i)) := by
    intro i k
    rw [hrow, Fin.fin_one_eq_zero k]
    exact accessor.getValue_row hp h _
  have hordered : ∀ k : Fin terms.length,
      Value.Preordered (Set.range fun i : Fin rows.length => value (object i)) := by
    refine fun k => .of_no_float ?_
    rintro _ ⟨i, rfl⟩
    exact hfloat _ (List.get_mem _ _)
  obtain ⟨places, hperm, hsorted, hpairs⟩ := exists_places_sortItems accessor hread hordered
  refine ⟨places.map object, ?_, ?_, ?_⟩
  · have hobjects : (List.finRange rows.length).map object = objects := by
      rw [← List.ofFn_eq_map]
      exact List.ext_getElem (by simp [rows]) fun i h h' => by simp [object]
    exact (hperm.map object).trans (.of_eq hobjects)
  · rw [hsorted, List.map_map]
    exact congrArg Except.ok (List.map_congr_left fun i _ => hrow i)
  · refine List.pairwise_map.2 (hpairs.imp fun {i j} hij => ?_)
    by_cases htie : (value (object i)).order (value (object j)) = .eq
    · rw [htie]
      rfl
    · rw [hij.decided 0 (fun l hl => absurd hl (Nat.not_lt_zero _)) htie]
      rfl

/-- **Sorting by a projected path orders the rows if the path is one name, and does nothing if it
has a point.** The text is a query, whatever path it is that a query can say. Each object of the
array under the name has a value at the path, or reads `null`, and the row of this value. If the
path is one name and no value is a binary number, the rows come in the order of their values. If
the path has a point, they come in the order of the objects, whatever their values are. -/
theorem apply_sort_projected (hn : IsName name) (hp : IsPath path)
    {members : List (String × Json)} {objects : List (List (String × Json))}
    (hget : Entries.get? members name = some (.array (objects.map .object))) :
    ∃ query, parse (name ++ "|sort: " ++ path ++ " \x7b " ++ path ++ " \x7d") = .ok query ∧
      ∃ value : List (String × Json) → Value,
        (∀ object, Accessor.getKey {} (.ofJson (.object object)) path = .ok (value object)) ∧
        ('.' ∉ path.toList → (∀ object ∈ objects, ∀ x, value object ≠ .float x) →
          ∃ sorted : List (List (String × Json)), sorted.Perm objects ∧
            (∀ g, (Evaluator.apply {} query (.value (.ofJson (.object members))) g).result =
              .ok (some [(name, .array (sorted.map fun object =>
                projectedRow path (value object)))])) ∧
            sorted.Pairwise fun a b => ((value a).order (value b)).isLE) ∧
        ('.' ∈ path.toList →
          ∀ g, (Evaluator.apply {} query (.value (.ofJson (.object members))) g).result =
            .ok (some [(name, .array (objects.map fun object =>
              projectedRow path (value object)))])) := by
  have hlenient : ({} : Accessor).strict = false := rfl
  choose found hfound using fun object => Accessor.exists_getKey_ofJson hlenient hp (.object object)
  have hdefault : ({} : Evaluator).normalizers = Normalizer.default := rfl
  refine ⟨_, parse_projected hn hp, fun object => .ofJson (found object), hfound,
    fun hone hfloat => ?_, fun hdotted =>
      Evaluator.result_apply_projected_dotted hdefault hlenient hp hdotted hget hfound⟩
  obtain ⟨sorted, hperm, hsorted, hpairs⟩ := exists_sorted_rows {} hp hone hfloat
  refine ⟨sorted, hperm, fun g => ?_, hpairs⟩
  rw [Evaluator.result_apply_projected hdefault hget hfound, hsorted]
  rfl

/-- What is read under a path of two names. -/
theorem Accessor.getKey_two_names (json : Json) :
    Accessor.getKey {} (.ofJson (.object [("a", .object [("b", json)])])) "a.b" =
      .ok (.ofJson json) := by
  have hab : IsPath "a.b" := ⟨["a", "b"], by simp, by decide, rfl⟩
  show Accessor.getValue {} (.ofJson (.object [("a", .object [("b", json)])])) "a.b" = _
  rw [Accessor.getValue, parsePath_of_isPath hab]
  rfl

/-- Rows with a path of one name are sorted, and rows with a path of two names are not. -/
theorem apply_sort_projected_twice :
    let plain (n : ℤ) : List (String × Json) := [("n", .integer n)]
    let nested (n : ℤ) : List (String × Json) := [("a", .object [("b", .integer n)])]
    let members (objects : List (List (String × Json))) : List (String × Json) :=
      [("xs", .array (objects.map .object))]
    let root (objects : List (List (String × Json))) : Root :=
      .value (.ofJson (.object (members objects)))
    IsName "xs" ∧ IsPath "n" ∧ IsPath "a.b" ∧
      (∃ query, parse "xs|sort: n \x7b n \x7d" = .ok query ∧
        ∃ value : List (String × Json) → Value,
          value (plain 2) = .integer 2 ∧ value (plain 1) = .integer 1 ∧
          ∃ sorted : List (List (String × Json)), sorted.Perm [plain 2, plain 1] ∧
            (Evaluator.apply {} query (root [plain 2, plain 1]) ⟨0⟩).result =
              .ok (some [("xs", .array (sorted.map fun object =>
                projectedRow "n" (value object)))]) ∧
            sorted.Pairwise fun a b => ((value a).order (value b)).isLE) ∧
      ∃ query, parse "xs|sort: a.b \x7b a.b \x7d" = .ok query ∧
        (Evaluator.apply {} query (root [nested 2, nested 1]) ⟨0⟩).result =
          .ok (some [("xs", .array [projectedRow "a.b" (.integer 2),
            projectedRow "a.b" (.integer 1)])]) := by
  intro plain nested members root
  have hxs : IsName "xs" := by decide
  have hn : IsPath "n" := ⟨["n"], by simp, by decide, rfl⟩
  have hab : IsPath "a.b" := ⟨["a", "b"], by simp, by decide, rfl⟩
  have hget : ∀ objects,
      Entries.get? (members objects) "xs" = some (.array (objects.map .object)) :=
    fun objects => if_pos rfl
  refine ⟨hxs, hn, hab, ?_, ?_⟩
  · obtain ⟨query, hparse, value, hvalue, hsorted, -⟩ :=
      apply_sort_projected hxs hn (hget [plain 2, plain 1])
    have htwo : value (plain 2) = .integer 2 := Except.ok.inj ((hvalue _).symm.trans rfl)
    have hone : value (plain 1) = .integer 1 := Except.ok.inj ((hvalue _).symm.trans rfl)
    have hfloat : ∀ object ∈ [plain 2, plain 1], ∀ x, value object ≠ .float x := by
      simp [htwo, hone]
    obtain ⟨sorted, hperm, hresult, hpairs⟩ := hsorted (by decide) hfloat
    exact ⟨query, hparse, value, htwo, hone, sorted, hperm, hresult ⟨0⟩, hpairs⟩
  · obtain ⟨query, hparse, value, hvalue, -, hkept⟩ :=
      apply_sort_projected hxs hab (hget [nested 2, nested 1])
    have htwo : value (nested 2) = .integer 2 :=
      Except.ok.inj ((hvalue _).symm.trans (Accessor.getKey_two_names (.integer 2)))
    have hone : value (nested 1) = .integer 1 :=
      Except.ok.inj ((hvalue _).symm.trans (Accessor.getKey_two_names (.integer 1)))
    refine ⟨query, hparse, ?_⟩
    rw [← htwo, ← hone]
    exact hkept (by decide) ⟨0⟩

/-- The values under a path of two names are not in order. -/
theorem exists_unsorted_projected :
    let object (n : ℤ) : Json := .object [("a", .object [("b", .integer n)])]
    let root : Root := .value (.ofJson (.object [("xs", .array [object 2, object 1])]))
    ∃ query, parse "xs|sort: a.b \x7b a.b \x7d" = .ok query ∧
      (Evaluator.apply {} query root ⟨0⟩).result =
        .ok (some [("xs", .array [.object [("a.b", .integer 2)], .object [("a.b", .integer 1)]])]) ∧
      ¬ ((Value.integer 2).order (.integer 1)).isLE := by
  intro object root
  have hxs : IsName "xs" := by decide
  have hab : IsPath "a.b" := ⟨["a", "b"], by simp, by decide, rfl⟩
  let members (n : ℤ) : List (String × Json) := [("a", .object [("b", .integer n)])]
  have hget : Entries.get? [("xs", Json.array [object 2, object 1])] "xs" =
      some (.array ([members 2, members 1].map .object)) := if_pos rfl
  choose found hfound using fun object => Accessor.exists_getKey_ofJson rfl hab (.object object)
  have htwo : Value.ofJson (found (members 2)) = .integer 2 :=
    Except.ok.inj ((hfound _).symm.trans (Accessor.getKey_two_names (.integer 2)))
  have hone : Value.ofJson (found (members 1)) = .integer 1 :=
    Except.ok.inj ((hfound _).symm.trans (Accessor.getKey_two_names (.integer 1)))
  have htext : "xs" ++ "|sort: " ++ "a.b" ++ " \x7b " ++ "a.b" ++ " \x7d" =
      "xs|sort: a.b \x7b a.b \x7d" := by simp
  refine ⟨_, htext ▸ parse_projected hxs hab, ?_, by decide⟩
  rw [← htwo, ← hone]
  exact Evaluator.result_apply_projected_dotted rfl rfl hab (by decide) hget hfound ⟨0⟩

end NestedQuery
