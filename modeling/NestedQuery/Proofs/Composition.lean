/-
# Queries put together

A query in braces behind a name is the sub-query of an entity, and two queries
with a comma between them are the entities of the one and then those of the
other. In front of a comma a phrase ends as it does at the end of a text,
unless it takes the comma for its own: sort terms do, a limit with one
argument does, and so does a payload that ends inside parentheses. What must
not come last in the first query is therefore told by `Closed`.

The second query is read behind the entities of the first one, so it is the
first of its entities with one of their aliases that is at fault
(`entitiesBehind_doubled`), at the place where that entity begins.

Key definitions: `Grammar.Complete`, `Grammar.Closed`, `Grammar.Listed`.
Key theorems: `Grammar.IsQuery.listed`, `Parser.entitiesBehind_listed`,
`scan_joined`, `parse_composed`.
-/
import Mathlib.Tactic
import NestedQuery.Proofs.Places

namespace NestedQuery
namespace Grammar

variable {behind more ts : List Token}

/-! ### Phrases in front of a comma -/

/-- The tokens behind the last `|`. -/
def behindPipe (tokens : List Token) : List Token :=
  (tokens.reverse.takeWhile (·.kind ≠ .pipe)).reverse

theorem behindPipe_append {pipe : Token} (init : List Token) {last : List Token}
    (hp : pipe.kind = .pipe) (hl : ∀ t ∈ last, t.kind ≠ .pipe) :
    behindPipe (init ++ pipe :: last) = last := by
  have hl' : ∀ t ∈ last.reverse, decide (t.kind ≠ .pipe) = true :=
    fun t ht => decide_eq_true (hl t (List.mem_reverse.1 ht))
  rw [behindPipe, List.reverse_append, List.reverse_cons, List.append_assoc,
    List.takeWhile_append_of_pos hl', List.singleton_append,
    List.takeWhile_cons_of_neg (by simp [hp]), List.append_nil, List.reverse_reverse]

/-- The depth of parentheses behind these tokens. -/
def depthBehind (depth : Nat) (tokens : List Token) : Nat :=
  tokens.foldl (fun depth token => Parser.depthAfter depth token.kind) depth

/-- A modifier that these tokens say does not take a comma behind them for its own. -/
inductive Complete : List Token → Modifier → Prop
  | randomize {tokens : List Token} : Complete tokens .randomize
  | limit {word colon first comma second : Token} {offset : Nat} {count : Option Nat} :
      Complete [word, colon, first, comma, second] (.limit offset count)
  | bare {tokens : List Token} {keyword : String} : Complete tokens (.generic keyword none)
  | payload {word colon : Token} {tokens : List Token} {keyword text : String}
      (h : depthBehind 0 tokens = 0) :
      Complete (word :: colon :: tokens) (.generic keyword (some text))

/-- The entity that comes last in these tokens does not take a comma behind them for its own: it
has a sub-query or no modifier, or its last modifier is complete. -/
def Closed (tokens : List Token) (entity : Entity) : Prop :=
  entity.children ≠ none ∨ entity.modifiers = [] ∨
    ∃ m ∈ entity.modifiers.getLast?, Complete (behindPipe tokens) m

theorem Payload.comma {depth : Nat} (h : Payload [] depth ts) (hd : depthBehind depth ts = 0)
    (hm : Begins [.comma] more) : Payload more depth ts := by
  induction h with
  | @done depth hb =>
    have hzero : depth = 0 := hd
    refine .done fun token ht => ?_
    rw [List.mem_singleton.1 (hm token ht), hzero]
    rfl
  | more ht _ ih => exact .more ht (ih hd)

theorem Payload.no_pipe {depth : Nat} (h : Payload behind depth ts) :
    ∀ t ∈ ts, t.kind ≠ .pipe := by
  induction h with
  | done _ => exact List.forall_mem_nil _
  | more ht _ ih =>
    refine List.forall_mem_cons.2 ⟨fun hp => ?_, ih⟩
    rw [hp] at ht
    cases ht

/-- No `|` stands in a modifier. -/
theorem IsModifier.no_pipe {m : Modifier} (h : IsModifier behind ts m) :
    ∀ t ∈ ts, t.kind ≠ .pipe := by
  cases h with
  | @sort _ _ tokens _ hw _ hc h =>
    have hterms : ∀ t ∈ tokens, t.kind ≠ .pipe := ne_of_kinds h.kinds (by decide)
    simpa [hw, hc] using hterms
  | @limit _ _ tokens _ _ hw _ hc h =>
    have harguments : ∀ t ∈ tokens, t.kind ≠ .pipe := ne_of_kinds h.kinds (by decide)
    simpa [hw, hc] using harguments
  | randomize hw _ => simp [hw]
  | bare hw _ _ => simp [hw]
  | payload hw _ hc h => simpa [hw, hc] using h.no_pipe

theorem IsModifier.comma {m : Modifier} (h : IsModifier [] ts m) (hc : Complete ts m)
    (hm : Begins [.comma] more) : IsModifier more ts m := by
  cases hc with
  | randomize =>
    cases h with
    | randomize hw ht => exact .randomize hw ht
  | limit =>
    cases h with
    | limit hw ht hc h =>
      cases h with
      | offsetAndCount hm hc' hn => exact .limit hw ht hc (.offsetAndCount hm hc' hn)
      | offset hm hc' hn => exact .limit hw ht hc (.offset hm hc' hn)
  | bare =>
    cases h with
    | bare hw ht _ => exact .bare hw ht (hm.without (by decide))
  | payload hd =>
    cases h with
    | payload hw ht hc h => exact .payload hw ht hc (h.comma hd hm)

/-- Modifiers end in front of a comma if the last one is complete. -/
theorem Modifiers.comma {ms : List Modifier} (init : List Token) (h : Modifiers [] ts ms)
    (hc : ms = [] ∨ ∃ m ∈ ms.getLast?, Complete (behindPipe (init ++ ts)) m)
    (hm : Begins [.comma] more) : Modifiers more ts ms := by
  induction h generalizing init with
  | done _ => exact .done (hm.without (by decide))
  | @more pipe tokens rest m ms hp hmod hr ih =>
    obtain ⟨last, hlast, hcomplete⟩ := hc.resolve_left (List.cons_ne_nil _ _)
    cases hr with
    | done _ =>
      cases hlast
      rw [List.append_nil] at hcomplete hmod
      rw [behindPipe_append init hp hmod.no_pipe] at hcomplete
      exact .more hp (hmod.comma hcomplete hm) (.done (hm.without (by decide)))
    | more hp' hmod' hr' =>
      refine .more hp (hmod.follows (.inl rfl)) (ih (init ++ pipe :: tokens) (.inr ?_))
      refine ⟨last, by simpa using hlast, ?_⟩
      simpa using hcomplete

theorem Heading.comma {entity : Entity} (init : List Token) (h : Heading [] ts entity)
    (hc : Closed (init ++ ts) entity) (hm : Begins [.comma] more) : Heading more ts entity := by
  have hbare : entity.children = none := by
    cases h
    rfl
  refine h.beginsAs (.inr hm) (by decide) fun before ms hts hms => ?_
  subst hts
  rw [← List.append_assoc] at hc
  exact hms.comma (init ++ before) (hc.resolve_left (· hbare)) hm

/-- An entity that takes no comma for its own may stand in front of one. -/
theorem IsEntity.comma {entity : Entity} (init : List Token) (h : IsEntity [] ts entity)
    (hc : Closed (init ++ ts) entity) (hm : Begins [.comma] more) : IsEntity more ts entity := by
  cases h with
  | bare h _ => exact .bare (h.comma init hc hm) (hm.without (by decide))
  | nested h ho hq hclose =>
    exact .nested (h.follows (.cons _ _ _)) ho (hq.follows (.cons _ _ _)) hclose

/-! ### Lists of entities -/

/-- Entities, each with a comma behind it. -/
inductive Listed (behind : List Token) : List Token → Query → Prop
  | nil : Listed behind [] []
  | cons {tokens rest : List Token} {comma : Token} {entity : Entity} {query : Query}
      (h : IsEntity (comma :: (rest ++ behind)) tokens entity) (hc : comma.kind = .comma)
      (hq : Listed behind rest query) : Listed behind (tokens ++ comma :: rest) (entity :: query)

/-- A query whose last entity takes no comma for its own may stand in front of one. -/
theorem IsQuery.listed (comma : Token) (hc : comma.kind = .comma) (more : List Token)
    {query : Query} : ∀ (init : List Token) {ts : List Token}, IsQuery [] ts query →
      (∀ entity ∈ query.getLast?, Closed (init ++ ts) entity) →
      Listed more (ts ++ [comma]) query
  | init, _, .last h _, hclosed =>
    .cons (h.comma init (hclosed _ rfl) (begins_cons (by simp [hc]))) hc .nil
  | init, _, @IsQuery.more _ tokens rest comma' entity query h hc' hq, hclosed => by
    rw [List.append_assoc, List.cons_append]
    refine .cons (h.follows (.cons _ _ _)) hc' ?_
    refine IsQuery.listed comma hc more (init ++ tokens ++ [comma']) hq fun last hlast => ?_
    have hlast' : last ∈ (entity :: query).getLast? := by
      rw [List.getLast?_cons, Option.mem_def.1 hlast]
      rfl
    simpa using hclosed last hlast'

/-- A query is cut in front of one of its entities. -/
theorem IsQuery.split {A B : Query} {entity : Entity} (h : IsQuery behind ts (A ++ entity :: B)) :
    ∃ before after, ts = before ++ after ∧ Listed (after ++ behind) before A ∧
      IsQuery behind after (entity :: B) := by
  induction A generalizing ts with
  | nil => exact ⟨[], ts, rfl, .nil, h⟩
  | cons first A ih =>
    rw [List.cons_append] at h
    generalize hrest : A ++ entity :: B = rest at h
    cases h with
    | last _ _ => simp at hrest
    | @more _ tokens others comma _ _ h hc hq =>
      obtain ⟨before, after, rfl, hl, ha⟩ := ih (hrest ▸ hq)
      refine ⟨tokens ++ comma :: before, after, by simp, .cons ?_ hc hl, ha⟩
      rwa [List.append_assoc] at h

end Grammar

open Grammar

theorem Query.nodup_aliases_append {first second : Query} (h1 : first.aliases.Nodup)
    (h2 : second.aliases.Nodup) (h : first.aliases.Disjoint second.aliases) :
    (first ++ second).aliases.Nodup := by
  unfold aliases at *
  rw [List.map_append]
  refine List.nodup_append.2 ⟨h1, h2, fun a ha b hb he => ?_⟩
  exact h ha (he ▸ hb)

namespace Parser

variable {siblings A B : Query} {entity : Entity} {ts us behind : List Token}

theorem entityWith_of_derived (h : IsEntity behind ts entity)
    (hd : ∀ children ∈ entity.children, Query.DistinctAliases children) :
    entityWith query (ts ++ behind) = .ok (entity, behind) :=
  entityWith_of_isEntity (fun hq _ hd => query_of_isQuery hq hd) h hd

/-- Entities with commas behind them become siblings of those that follow. -/
theorem entitiesBehind_listed (siblings : Query) (h : Listed behind ts A)
    (hn : (siblings ++ A).aliases.Nodup) (hd : Query.DistinctBelow A) :
    entitiesBehind siblings (ts ++ behind) = entitiesBehind (siblings ++ A) behind := by
  induction h generalizing siblings with
  | nil => rw [List.append_nil, List.nil_append]
  | @cons tokens rest comma entity query he hc _ ih =>
    obtain ⟨hchildren, hbelow⟩ := Query.distinctBelow_cons.1 hd
    have ha : entity.aliasName ∉ siblings.aliases := Query.not_mem_aliases_of_nodup hn
    rw [List.append_cons] at hn
    rw [List.append_assoc, List.cons_append,
      entitiesBehind_more (entityWith_of_derived he hchildren) ha hc, ih _ hn hbelow,
      ← List.append_cons]

/-- An entity that shares its alias with a sibling is at fault. -/
theorem entitiesBehind_doubled (h : IsQuery [] ts (entity :: B))
    (hd : ∀ children ∈ entity.children, Query.DistinctAliases children)
    (ha : entity.aliasName ∈ siblings.aliases) :
    entitiesBehind siblings ts = .error (.duplicateAlias entity.aliasName (place ts)) := by
  obtain ⟨rest, hread⟩ : ∃ rest, entityWith query ts = .ok (entity, rest) := by
    cases h with
    | last h _ => exact ⟨[], by simpa using entityWith_of_derived h hd⟩
    | @more _ tokens rest comma _ _ h _ _ =>
      exact ⟨comma :: (rest ++ []), by simpa using entityWith_of_derived h hd⟩
  rw [entitiesBehind_eq, hread]
  exact if_pos ha

theorem alike_entitiesBehind {R : Nat → Nat → Prop} (siblings : Query) (h : Moved R ts us) :
    Alike R Eq (entitiesBehind siblings ts) (entitiesBehind siblings us) := by
  unfold entitiesBehind
  rw [h.length_eq]
  exact alike_entities _ siblings h

end Parser

open Text NestedQuery.Parser

/-! ### Texts put together -/

/-- The tokens of two texts with a comma between them. -/
theorem scan_joined {q1 q2 : String} {ts us : List Token} (h1 : scan q1 = .ok ts)
    (h2 : scan q2 = .ok us) :
    scan (q1 ++ "," ++ q2) =
      .ok (ts ++ ⟨.comma, ",", q1.length⟩ :: us.map (Token.move (q1.length + 1 + ·))) := by
  have hbehind := (Layout.of_scanFrom h2).shift (q1.length + 1)
  have hcomma : Layout (0 + q1.toList.length) (',' :: q2.toList)
      (⟨.comma, ",", 0 + q1.toList.length⟩ :: us.map (Token.move (q1.length + 1 + ·))) := by
    refine .sign rfl ?_
    rw [Nat.zero_add, String.length_toList]
    exact hbehind
  have hsep : Separates ',' := by decide
  have hall := (Layout.of_scanFrom h1).append hcomma hsep.head
  rw [Nat.zero_add, String.length_toList] at hall
  rw [scan, String.toList_append, String.toList_append, List.append_assoc]
  exact hall.scanFrom_eq

/-- The tokens of a text in braces behind a name, with blanks around the braces or without. -/
theorem scan_nested {text x q : String} {before inside behind : List Char} {ts : List Token}
    (hx : IsName x) (hbefore : Blank before) (hinside : Blank inside) (hbehind : Blank behind)
    (htext : text.toList =
      x.toList ++ (before ++ '\x7b' :: (inside ++ (q.toList ++ (behind ++ ['\x7d'])))))
    (h : scan q = .ok ts) :
    ∃ opening closing : Token, ∃ n, opening.kind = .openCurly ∧ closing.kind = .closeCurly ∧
      scan text =
        .ok (⟨Kind.ofWord x, x, 0⟩ :: opening :: (ts.map (Token.move (n + ·)) ++ [closing])) := by
  let n := 0 + x.length + before.length + 1 + inside.length
  have hclosing : Layout (n + 0 + q.toList.length) (behind ++ ['\x7d']) _ :=
    .blanks hbehind (.sign rfl (.done blank_nil))
  have hends : ∀ {gap cs : List Char} {c : Char}, Blank gap → Separates c →
      ∀ d ∈ (gap ++ c :: cs).head?, Separates d := by
    intro gap cs c hgap hc
    cases gap with
    | nil => exact hc.head
    | cons d gap => exact (separates_of_isBlank (hgap d List.mem_cons_self)).head
  have hinner : Layout n (q.toList ++ (behind ++ ['\x7d'])) _ :=
    ((Layout.of_scanFrom h).shift n).append hclosing (hends hbehind (by decide))
  have hopening : Layout (0 + x.length) (before ++ '\x7b' :: (inside ++ _)) _ :=
    .blanks hbefore (.sign rfl (.blanks hinside hinner))
  have hword := Layout.word hx (fun d hd => (hends hbefore (by decide) d hd).1) hopening
  rw [← htext] at hword
  exact ⟨_, _, n, rfl, rfl, hword.scanFrom_eq⟩

/-- A text of more than blanks that says a query has tokens that derive it. -/
theorem exists_isQuery {q : String} {query : Query} (hb : ¬ Blank q.toList)
    (h : parse q = .ok query) :
    ∃ tokens, scan q = .ok tokens ∧ IsQuery [] tokens query ∧ query.DistinctAliases := by
  obtain ⟨tokens, hs, ⟨rfl, -⟩ | hq⟩ := parse_eq_ok_iff.1 h
  · exact absurd (Layout.of_scanFrom hs).blank_of_nil hb
  · exact ⟨tokens, hs, hq⟩

/-- Tokens that derive a query derive it further behind, too. -/
theorem isQuery_shift {tokens : List Token} {query : Query} (n : Nat) (h : IsQuery [] tokens query)
    (hd : query.DistinctAliases) : IsQuery [] (tokens.map (Token.move (n + ·))) query := by
  have hparse : parseTokens (tokens.map (Token.move (n + ·))) = .ok query := by
    rw [parseTokens_map (keepsJoined_add n tokens), parseTokens_eq_ok_iff.2 (.inr ⟨h, hd⟩)]
    rfl
  rcases parseTokens_eq_ok_iff.1 hparse with ⟨hnil, -⟩ | ⟨hq, -⟩
  · exact absurd (List.map_eq_nil_iff.1 hnil) (ne_nil_of_isQuery h)
  · exact hq

/-- A name in front of braces is an entity with the query in them. -/
theorem isEntity_nested (name opening closing : Token) {inner : List Token} {children : Query}
    (hn : name.kind ∈ nameKinds) (ho : opening.kind = .openCurly) (hc : closing.kind = .closeCurly)
    (h : IsQuery [] inner children) :
    IsEntity [] (name :: opening :: (inner ++ [closing]))
      ⟨name.text, name.text, none, some children, []⟩ := by
  have hbegins : Begins [.openCurly] (opening :: (inner ++ [closing])) :=
    begins_cons (by simp [ho])
  have hpath : Path (opening :: (inner ++ [closing])) [name] name.text :=
    ⟨[name.text], .last hn fun dot hdot hj => hbegins.without (by decide) dot hdot hj.1, rfl⟩
  have hheading := Heading.of_path hpath (hbegins.mono (by decide))
  have hinner : IsQuery [closing] inner children := h.follows (.inr (begins_cons (by simp [hc])))
  exact IsEntity.nested hheading ho hinner hc

/-- A query in braces behind a name is the sub-query of an entity. -/
theorem parse_braced {text x q : String} {before inside behind : List Char} {children : Query}
    (hx : IsName x) (hbefore : Blank before) (hinside : Blank inside) (hbehind : Blank behind)
    (htext : text.toList =
      x.toList ++ (before ++ '\x7b' :: (inside ++ (q.toList ++ (behind ++ ['\x7d'])))))
    (hb : ¬ Blank q.toList) (h : parse q = .ok children) :
    parse text = .ok [⟨x, x, none, some children, []⟩] := by
  obtain ⟨tokens, hs, hq, hd⟩ := exists_isQuery hb h
  obtain ⟨opening, closing, n, ho, hc, hscan⟩ :=
    scan_nested hx hbefore hinside hbehind htext hs
  have hentity := isEntity_nested ⟨Kind.ofWord x, x, 0⟩ opening closing (ofWord_mem_nameKinds x)
    ho hc (isQuery_shift n hq hd)
  refine parse_eq_ok_iff.2 ⟨_, hscan, .inr ⟨.last hentity (without_nil _), ?_, ?_⟩⟩
  · simp [Query.aliases]
  · refine Query.distinctBelow_cons.2 ⟨?_, Query.distinctBelow_nil⟩
    rintro _ ⟨rfl⟩
    exact hd

theorem parse_nested {x q : String} {children : Query} (hx : IsName x) (hb : ¬ Blank q.toList)
    (h : parse q = .ok children) :
    parse (x ++ "\x7b" ++ q ++ "\x7d") = .ok [⟨x, x, none, some children, []⟩] := by
  have htext : (x ++ "\x7b" ++ q ++ "\x7d").toList =
      x.toList ++ ([] ++ '\x7b' :: ([] ++ (q.toList ++ ([] ++ ['\x7d'])))) := by
    simp [String.toList_append]
  exact parse_braced hx blank_nil blank_nil blank_nil htext hb h

section

variable {q1 q2 : String} {first second : Query} {ts us : List Token}

/-- With a comma between two texts, the second one is read behind the entities of the first. -/
theorem parse_joined (h1 : scan q1 = .ok ts) (h2 : scan q2 = .ok us) (hq : IsQuery [] ts first)
    (hd : first.DistinctAliases) (hc : ∀ entity ∈ first.getLast?, Closed ts entity) :
    parse (q1 ++ "," ++ q2) =
      match entitiesBehind first (us.map (Token.move (q1.length + 1 + ·))) with
      | .error e => .error e
      | .ok (query, []) => .ok query
      | .ok (_, token :: rest) => .error (unexpected .commaOrEnd none (token :: rest)) := by
  have hlisted := hq.listed (⟨.comma, ",", q1.length⟩ : Token) rfl
    (us.map (Token.move (q1.length + 1 + ·))) [] hc
  have hread := entitiesBehind_listed [] hlisted hd.1 hd.2
  rw [List.nil_append, ← List.append_cons] at hread
  rw [parse_of_scan (scan_joined h1 h2), parseTokens_eq (by simp), ← hread]
  rfl

theorem parse_joined_disjoint (h1 : scan q1 = .ok ts) (h2 : scan q2 = .ok us)
    (hq1 : IsQuery [] ts first) (hd1 : first.DistinctAliases)
    (hc : ∀ entity ∈ first.getLast?, Closed ts entity) (hq2 : IsQuery [] us second)
    (hd2 : second.DistinctAliases) (hdisjoint : first.aliases.Disjoint second.aliases) :
    parse (q1 ++ "," ++ q2) = .ok (first ++ second) := by
  have hnodup := Query.nodup_aliases_append hd1.1 hd2.1 hdisjoint
  have hread : entitiesBehind first us = .ok (first ++ second, []) := by
    have hread := entities_of_isQuery hq2 (Nat.lt_succ_self _) hnodup hd2.2
    rwa [List.append_nil] at hread
  have halike := alike_entitiesBehind first (moved_map (keepsJoined_add (q1.length + 1) us))
  rw [hread] at halike
  obtain ⟨rest, hmoved, hrest⟩ := halike.of_ok
  cases hrest
  rw [parse_joined h1 h2 hq1 hd1 hc, hmoved]

theorem parse_joined_doubled (h1 : scan q1 = .ok ts) (h2 : scan q2 = .ok us)
    (hq1 : IsQuery [] ts first) (hd1 : first.DistinctAliases)
    (hc : ∀ entity ∈ first.getLast?, Closed ts entity) (hq2 : IsQuery [] us second)
    (hd2 : second.DistinctAliases) (hshared : ¬ first.aliases.Disjoint second.aliases) :
    ∃ (A B : Query) (entity : Entity) (before behind : List Token),
      second = A ++ entity :: B ∧ (∀ other ∈ A, other.aliasName ∉ first.aliases) ∧
        entity.aliasName ∈ first.aliases ∧ us = before ++ behind ∧ Listed behind before A ∧
        IsQuery [] behind (entity :: B) ∧
        parse (q1 ++ "," ++ q2) =
          .error (.duplicateAlias entity.aliasName (q1.length + 1 + place behind)) := by
  obtain ⟨entity, hfind⟩ : ∃ entity, second.find? (·.aliasName ∈ first.aliases) = some entity := by
    refine Option.isSome_iff_exists.1 (Option.ne_none_iff_isSome.1 fun hnone => hshared ?_)
    intro a ha hb
    obtain ⟨other, hother, rfl⟩ := List.mem_map.1 hb
    exact List.find?_eq_none.1 hnone other hother (decide_eq_true ha)
  obtain ⟨hshares, A, B, rfl, hA⟩ := List.find?_eq_some_iff_append.1 hfind
  have hA' : ∀ other ∈ A, other.aliasName ∉ first.aliases := by simpa using hA
  have hentity : entity.aliasName ∈ first.aliases := by simpa using hshares
  obtain ⟨before, behind, rfl, hlisted, hbehind⟩ := hq2.split
  rw [List.append_nil] at hlisted
  refine ⟨A, B, entity, before, behind, rfl, hA', hentity, rfl, hlisted, hbehind, ?_⟩
  -- the entities before it become siblings, too
  have hnodup : (first ++ A).aliases.Nodup := by
    refine Query.nodup_aliases_append hd1.1 ?_ fun a ha hb => ?_
    · exact hd2.1.sublist ((List.sublist_append_left A (entity :: B)).map _)
    · obtain ⟨other, hother, rfl⟩ := List.mem_map.1 hb
      exact hA' other hother ha
  have hbelow : Query.DistinctBelow A :=
    Query.forall_preorder_of_subset hd2.2 fun _ => List.mem_append_left _
  have hchildren : ∀ children ∈ entity.children, Query.DistinctAliases children := by
    obtain ⟨hnodup, hbelow⟩ :=
      Query.forall_preorder_of_mem hd2.2 (List.mem_append_right A List.mem_cons_self)
    exact fun children hc => ⟨hnodup children hc, hbelow children hc⟩
  have hread : entitiesBehind first (before ++ behind) =
      .error (.duplicateAlias entity.aliasName (place behind)) := by
    rw [entitiesBehind_listed first hlisted hnodup hbelow]
    refine entitiesBehind_doubled hbehind hchildren ?_
    rw [Query.aliases, List.map_append]
    exact List.mem_append_left _ hentity
  have halike := alike_entitiesBehind first
    (moved_map (keepsJoined_add (q1.length + 1) (before ++ behind)))
  rw [hread] at halike
  obtain ⟨e, hmoved, he⟩ := halike.of_error
  rw [parse_joined h1 h2 hq1 hd1 hc, hmoved]
  cases he with
  | duplicate hp => rw [hp]

end

/-- **Texts of queries compose.** A query in braces behind a name is the sub-query of an entity.
Two queries with a comma between them are one query, if the first one does not take the comma for
its own and they share no alias. If they do, the first entity of the second query with an alias of
the first query is at fault, at the place where its tokens begin. -/
theorem parse_composed :
    (∀ {x q : String} {children : Query}, IsName x → ¬ Blank q.toList → parse q = .ok children →
      parse (x ++ "\x7b" ++ q ++ "\x7d") = .ok [⟨x, x, none, some children, []⟩]) ∧
    ∀ {q1 q2 : String} {first second : Query} {tokens : List Token}, ¬ Blank q1.toList →
      ¬ Blank q2.toList → parse q1 = .ok first → parse q2 = .ok second →
      scan q1 = .ok tokens → (∀ entity ∈ first.getLast?, Closed tokens entity) →
        (first.aliases.Disjoint second.aliases →
          parse (q1 ++ "," ++ q2) = .ok (first ++ second)) ∧
        (¬ first.aliases.Disjoint second.aliases →
          ∃ (A B : Query) (entity : Entity) (before behind : List Token),
            second = A ++ entity :: B ∧ (∀ other ∈ A, other.aliasName ∉ first.aliases) ∧
              entity.aliasName ∈ first.aliases ∧ scan q2 = .ok (before ++ behind) ∧
              Listed behind before A ∧ IsQuery [] behind (entity :: B) ∧
              parse (q1 ++ "," ++ q2) =
                .error (.duplicateAlias entity.aliasName (q1.length + 1 + place behind))) := by
  refine ⟨parse_nested, ?_⟩
  intro q1 q2 first second tokens hb1 hb2 hp1 hp2 hscan hclosed
  obtain ⟨ts, h1, hq1, hd1⟩ := exists_isQuery hb1 hp1
  obtain ⟨us, h2, hq2, hd2⟩ := exists_isQuery hb2 hp2
  rw [h1] at hscan
  cases hscan
  constructor
  · exact parse_joined_disjoint h1 h2 hq1 hd1 hclosed hq2 hd2
  · intro hshared
    obtain ⟨A, B, entity, before, behind, hsecond, hA, hentity, rfl, hlisted, hbehind, hparse⟩ :=
      parse_joined_doubled h1 h2 hq1 hd1 hclosed hq2 hd2 hshared
    exact ⟨A, B, entity, before, behind, hsecond, hA, hentity, h2, hlisted, hbehind, hparse⟩

/-- The comma in the parentheses belongs to the payload, the one behind them does not. -/
theorem parse_composed_payload :
    parse "x\x7ba|top:(1,2)\x7d" = .ok [⟨"x", "x", none, some
        [⟨"a", "a", none, none, [.generic "top" (some "( 1 , 2 )")]⟩], []⟩] ∧
      parse "a|top:(1,2),b" = .ok [⟨"a", "a", none, none, [.generic "top" (some "( 1 , 2 )")]⟩,
        ⟨"b", "b", none, none, []⟩] ∧
      ∃ entity : Entity, ∃ p, entity.aliasName ∈ ["a"] ∧
        parse "a|top:(1,2),b,a" = .error (.duplicateAlias entity.aliasName (12 + p)) := by
  let tokens : List Token := [⟨.identifier, "a", 0⟩, ⟨.pipe, "|", 1⟩, ⟨.identifier, "top", 2⟩,
    ⟨.colon, ":", 5⟩, ⟨.openParen, "(", 6⟩, ⟨.integer, "1", 7⟩, ⟨.comma, ",", 8⟩,
    ⟨.integer, "2", 9⟩, ⟨.closeParen, ")", 10⟩]
  have hscan : scan "a|top:(1,2)" = .ok tokens := by
    set_option maxRecDepth 2000 in cbv
  have hfirst : parse "a|top:(1,2)" =
      .ok [⟨"a", "a", none, none, [.generic "top" (some "( 1 , 2 )")]⟩] := by
    set_option maxRecDepth 2000 in cbv
  have hdisjoint : parse "b" = .ok [⟨"b", "b", none, none, []⟩] := by
    set_option maxRecDepth 2000 in cbv
  have hshared : parse "b,a" = .ok [⟨"b", "b", none, none, []⟩, ⟨"a", "a", none, none, []⟩] := by
    set_option maxRecDepth 2000 in cbv
  have hclosed : ∀ entity ∈ [(⟨"a", "a", none, none, [.generic "top" (some "( 1 , 2 )")]⟩ :
      Entity)].getLast?, Closed tokens entity := by
    rintro _ ⟨rfl⟩
    have hlast : behindPipe tokens = tokens.drop 2 := rfl
    refine .inr (.inr ⟨_, rfl, ?_⟩)
    rw [hlast]
    exact .payload rfl
  have hblank : ¬ Blank "a|top:(1,2)".toList := by decide
  have hjoined := parse_composed.2 hblank (by decide) hfirst hdisjoint hscan hclosed
  obtain ⟨_, _, entity, _, behind, -, -, hentity, -, -, -, hparse⟩ :=
    (parse_composed.2 hblank (by decide) hfirst hshared hscan hclosed).2
      (by simp [Query.aliases])
  have hname : IsName "x" := by decide
  exact ⟨parse_composed.1 hname hblank hfirst, hjoined.1 (by simp [Query.aliases]), entity,
    place behind, hentity, hparse⟩

example : parse "a|top:(1,2),b,a" = .error (.duplicateAlias "a" 14) := by
  set_option maxRecDepth 2000 in cbv

end NestedQuery
