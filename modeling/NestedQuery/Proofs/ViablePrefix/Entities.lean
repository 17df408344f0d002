/-
# Where the parser stops in a query

An entity stops in its heading, in its sub-query or where the latter should be
closed, and entities stop where one of them does. So a list of tokens with an
unexpected one consists of tokens that some words complete and of others, the
first of which is at fault (`parseTokens_unexpected`). If there are no others,
the end is at fault. Behind a whole query a token is unexpected, too; what is
before it needs no words to be complete.

Key definitions: `Parser.entitiesBehind`, `SyntaxOk`.
Key theorems: `Parser.stuck_entityWith`, `Parser.stuck_entities`,
`parseTokens_unexpected`.
-/
import NestedQuery.Proofs.ViablePrefix

namespace NestedQuery
namespace Parser

open Grammar

variable {tokens rest : List Token} {err : ParseError}

/-! ### Queries -/

/-- The entities at the head of the tokens, behind the siblings that were read before. -/
def entitiesBehind (siblings : Query) (tokens : List Token) : Reading Query :=
  entities (tokens.length + 1) siblings tokens

theorem isQuery_of_query {children : Query} (h : query tokens = .ok (children, rest)) :
    ∃ us, IsQuery rest us children ∧ tokens = us ++ rest ∧ Query.DistinctAliases children := by
  obtain ⟨us, others, gq, rfl, rfl, hn, hb⟩ := isQuery_of_entities h List.nodup_nil
  exact ⟨us, gq, rfl, hn, hb⟩

theorem query_of_isQuery {us behind : List Token} {children : Query}
    (h : IsQuery behind us children) (hd : Query.DistinctAliases children) :
    query (us ++ behind) = .ok (children, behind) :=
  entities_of_isQuery h (Nat.lt_succ_self _) hd.1 hd.2

/-- What is read as a query is read as the same one in front of other tokens. -/
theorem query_follows {children : Query} (h : query tokens = .ok (children, rest)) :
    ∃ us, us ≠ [] ∧ tokens = us ++ rest ∧
      ∀ more, Follows rest more → query (us ++ more) = .ok (children, more) := by
  obtain ⟨us, gq, rfl, hd⟩ := isQuery_of_query h
  exact ⟨us, ne_nil_of_isQuery gq, rfl, fun more hf => query_of_isQuery (gq.follows hf) hd⟩

/-- What is read as an entity is read as the same one in front of other tokens. -/
theorem entityWith_follows {entity : Entity} (h : entityWith query tokens = .ok (entity, rest)) :
    ∃ ts, tokens = ts ++ rest ∧
      ∀ more, Follows rest more → entityWith query (ts ++ more) = .ok (entity, more) := by
  obtain ⟨ts, ge, rfl, hd⟩ := isEntity_of_entityWith isQuery_of_query h
  exact ⟨ts, rfl, fun more hf =>
    entityWith_of_isEntity (fun hq _ hd => query_of_isQuery hq hd) (ge.follows hf) hd⟩

section

variable {f : List Token → Reading Query} {bare : Entity} {opening : Token} {inner : List Token}

theorem entityWith_error (h : heading tokens = .error err) : entityWith f tokens = .error err := by
  simp [entityWith, h]

theorem entityWith_closing (h : heading tokens = .ok (bare, rest))
    (hb : Begins [.closeCurly] rest) : entityWith f tokens = .ok (bare, rest) := by
  obtain ⟨ts, gh, rfl⟩ := heading_eq_ok_iff.1 h
  exact entityWith_eq_ok_iff.2 (.inl ⟨ts, gh, rfl, hb.without (by decide)⟩)

/-- Behind an opening brace there is a sub-query, and then the closing brace. -/
theorem entityWith_nested (hh : heading tokens = .ok (bare, opening :: inner))
    (ho : opening.kind = .openCurly) (hi : inner ≠ []) :
    entityWith f tokens =
      match f inner with
      | .error e => .error e
      | .ok (children, behind) =>
        (expect [.closeCurly] (.subQueryOf bare.path) behind).map fun r =>
          ({ bare with children := some children }, r.2) := by
  cases hq : f inner <;> simp [entityWith, hh, ho, hi, hq]

end

section

variable {opening : Token} {ts inner : List Token} {bare : Entity}

/-- An opening brace is completed if what stands behind it is. -/
theorem entityWith_enclosed (gh : Heading (opening :: inner) ts bare)
    (ho : opening.kind = .openCurly) :
    (∀ more e, more ≠ [] → query more = .error e →
      entityWith query (ts ++ [opening] ++ more) = .error e) ∧
    ∀ more children closing behind, query more = .ok (children, closing :: behind) →
      closing.kind = .closeCurly →
        ∃ entity, entityWith query (ts ++ [opening] ++ more) = .ok (entity, behind) := by
  have hh : ∀ more, heading (ts ++ [opening] ++ more) = .ok (bare, opening :: more) :=
    fun more => heading_eq_ok_iff.2 ⟨ts, gh.follows (.cons opening inner more), by simp⟩
  constructor
  · intro more e hm he
    rw [entityWith_nested (hh more) ho hm, he]
  · intro more children closing behind hq hc
    have hm : more ≠ [] := by
      obtain ⟨us, hne, rfl, -⟩ := query_follows hq
      simp
    have hclosing : expect [.closeCurly] (.subQueryOf bare.path) (closing :: behind) =
        .ok (closing, behind) := expect_eq_ok_iff.2 ⟨List.mem_singleton.2 hc, rfl⟩
    refine ⟨{ bare with children := some children }, ?_⟩
    rw [entityWith_nested (hh more) ho hm, hq]
    simp only [hclosing, Except.map]

/-- An opening brace at the end: a closing one is expected, and a query before it completes. -/
theorem stuck_open (gh : Heading [opening] ts bare) (ho : opening.kind = .openCurly)
    (hc : Completable query []) (h : entityWith query (ts ++ [opening] ++ []) = .error err) :
    Stuck (entityWith query) (ts ++ [opening] ++ []) err := by
  have hh : heading (ts ++ [opening]) = .ok (bare, [opening]) := heading_eq_ok_iff.2 ⟨ts, gh, rfl⟩
  have he : entityWith query (ts ++ [opening] ++ []) =
      .error (unexpected (.oneOf [.closeCurly]) (some (.subQueryOf bare.path)) []) := by
    simp [entityWith, hh, ho, expect, Except.map]
  rw [he] at h
  cases h
  obtain ⟨hfail, hread⟩ := entityWith_enclosed gh ho
  have hcompletable := hc.enclosed _ hfail hread
  rw [List.append_nil] at hcompletable
  refine .mk _ [] (fun other hother => ?_) hcompletable
  rw [List.head?_eq_none_iff.1 hother]
  exact he

/-- A sub-query that is read up to something else than the closing brace. -/
theorem stuck_unclosed (gh : Heading (opening :: inner) ts bare) (ho : opening.kind = .openCurly)
    {children : Query} (hq : query inner = .ok (children, rest))
    (h : entityWith query (ts ++ [opening] ++ inner) = .error err) :
    Stuck (entityWith query) (ts ++ [opening] ++ inner) err := by
  obtain ⟨us, hne, rfl, hus⟩ := query_follows hq
  have hnested : ∀ more, Follows rest more →
      entityWith query (ts ++ [opening] ++ (us ++ more)) =
        (expect [.closeCurly] (.subQueryOf bare.path) more).map fun r =>
          ({ bare with children := some children }, r.2) := by
    intro more hf
    have hh : heading (ts ++ [opening] ++ (us ++ more)) = .ok (bare, opening :: (us ++ more)) :=
      heading_eq_ok_iff.2 ⟨ts, gh.follows (.cons opening _ _), by simp⟩
    rw [entityWith_nested hh ho (by simp [hne]), hus more hf]
  rw [hnested rest (.inl rfl)] at h
  obtain ⟨hfault, rfl⟩ := expect_eq_error_iff.1 (map_eq_error_iff.1 h)
  rw [← List.append_assoc]
  refine .mk _ rest (fun other hother => ?_)
    (completable_of_word .closing fun {closing behind} hk _ _ => ?_)
  · rw [List.append_assoc, hnested other (.inl hother)]
    refine map_eq_error_iff.2 (expect_eq_error_iff.2 ⟨hother ▸ hfault, ?_⟩)
    rw [unexpected, unexpected, hother]
  · have hclosing : Follows rest (closing :: behind) :=
      .inr (begins_cons (List.mem_singleton.2 hk))
    rw [List.append_assoc]
    exact (entityWith_enclosed gh ho).2 _ children closing behind (hus _ hclosing) hk

end

/-- An entity stops in its heading, in its sub-query, or where the latter should be closed. -/
theorem stuck_entityWith {e : SyntaxError}
    (ih : ∀ {inner : List Token} {e : SyntaxError}, inner.length < tokens.length →
      query inner = .error (.unexpected e) → Stuck query inner (.unexpected e))
    (h : entityWith query tokens = .error (.unexpected e)) :
    Stuck (entityWith query) tokens (.unexpected e) := by
  cases hh : heading tokens with
  | error err =>
    rw [entityWith_error hh] at h
    cases h
    refine (stuck_heading hh).lift [] (fun more e => entityWith_error)
      fun more bare behind hread hb => ?_
    rw [List.nil_append, entityWith_closing hread hb]
    exact .read bare
  | ok r =>
    obtain ⟨bare, rest⟩ := r
    have hlt := length_of_heading hh
    obtain ⟨ts, gh, rfl⟩ := heading_eq_ok_iff.1 hh
    by_cases hb : Without .openCurly rest
    · rw [entityWith_eq_ok_iff.2 (.inl ⟨ts, gh, rfl, hb⟩)] at h
      cases h
    · obtain _ | ⟨opening, inner⟩ := rest
      · exact (hb (without_nil _)).elim
      · have ho : opening.kind = .openCurly := not_not.1 (mt without_cons.2 hb)
        have hinner : inner.length < (ts ++ opening :: inner).length := by
          simp only [List.length_cons] at hlt
          omega
        rw [List.append_cons] at h ⊢
        cases hq : query inner with
        | ok r => exact stuck_unclosed gh ho hq h
        | error err =>
          by_cases hi : inner = []
          · subst hi
            exact stuck_open gh ho ((ih hinner rfl).completable_nil rfl) h
          · obtain ⟨hfail, hread⟩ := entityWith_enclosed gh ho
            rw [hfail inner err hi hq] at h
            cases h
            exact (ih hinner hq).enclosed hi _ hfail hread

section

variable {siblings : Query} {next : Entity}

/-- The entities behind siblings are an entity and, behind a comma, those behind one sibling
more. -/
theorem entitiesBehind_eq (siblings : Query) (tokens : List Token) :
    entitiesBehind siblings tokens =
      match entityWith query tokens with
      | .error e => .error e
      | .ok (next, rest) =>
        if next.aliasName ∈ siblings.aliases then
          .error (.duplicateAlias next.aliasName (place tokens))
        else
          match rest with
          | [] => .ok (siblings ++ [next], [])
          | comma :: more =>
            if comma.kind = .comma then entitiesBehind (siblings ++ [next]) more
            else .ok (siblings ++ [next], comma :: more) := by
  have hsub : entityWith (entities tokens.length []) tokens = entityWith query tokens :=
    entityWith_congr fun inner hi => entities_eq hi (Nat.lt_succ_self _)
  rw [entitiesBehind, entities, hsub]
  cases he : entityWith query tokens with
  | error e => rfl
  | ok r =>
    obtain ⟨next, rest⟩ := r
    cases rest with
    | nil => rfl
    | cons comma more =>
      have hlt := length_of_entityWith (fun _ _ _ hq => Nat.le_of_lt (length_of_entities hq)) he
      have hmore : entities tokens.length (siblings ++ [next]) more =
          entitiesBehind (siblings ++ [next]) more :=
        entities_eq (Nat.lt_of_succ_lt hlt) (Nat.lt_succ_self _)
      simp only [hmore]

theorem entitiesBehind_error (h : entityWith query tokens = .error err) :
    entitiesBehind siblings tokens = .error err := by
  rw [entitiesBehind_eq, h]

/-- An entity in front of a closing brace is the last one. -/
theorem entitiesBehind_closing (h : entityWith query tokens = .ok (next, rest))
    (hb : Begins [.closeCurly] rest) : Accepted rest (entitiesBehind siblings tokens) := by
  rw [entitiesBehind_eq, h]
  dsimp only
  split
  · exact .duplicate _ _
  · cases rest with
    | nil => exact .read _
    | cons token rest =>
      have hcomma : token.kind ≠ .comma := without_cons.1 (hb.without (by decide))
      simp only [if_neg hcomma]
      exact .read _

theorem entitiesBehind_more {comma : Token}
    (h : entityWith query tokens = .ok (next, comma :: rest))
    (ha : next.aliasName ∉ siblings.aliases) (hc : comma.kind = .comma) :
    entitiesBehind siblings tokens = entitiesBehind (siblings ++ [next]) rest := by
  rw [entitiesBehind_eq, h]
  simp only [if_neg ha, if_pos hc]

/-- If an entity is read, an unexpected token is not met before the comma behind it. -/
theorem exists_comma {e : SyntaxError}
    (h : entitiesBehind siblings tokens = .error (.unexpected e))
    (hn : entityWith query tokens = .ok (next, rest)) :
    next.aliasName ∉ siblings.aliases ∧
      ∃ comma more, comma.kind = .comma ∧ rest = comma :: more := by
  rw [entitiesBehind_eq, hn] at h
  dsimp only at h
  split at h
  · cases h
  · next ha =>
    refine ⟨ha, ?_⟩
    split at h
    · cases h
    · next comma more =>
      split at h
      · next hc => exact ⟨comma, more, hc, rfl⟩
      · cases h

end

/-- Entities stop where one of them does. -/
theorem stuck_entities {siblings : Query} {e : SyntaxError}
    (h : entitiesBehind siblings tokens = .error (.unexpected e)) :
    Stuck (entitiesBehind siblings) tokens (.unexpected e) := by
  -- a sub-query has fewer tokens, and so have the entities behind a comma
  induction hl : tokens.length using Nat.strongRecOn generalizing siblings tokens e with
  | _ length ih =>
    subst hl
    cases he : entityWith query tokens with
    | error err =>
      rw [entitiesBehind_error he] at h
      cases h
      have hs : Stuck (entityWith query) tokens (.unexpected e) :=
        stuck_entityWith (fun hlt hq => ih _ hlt hq rfl) he
      refine hs.lift [] (fun more err => entitiesBehind_error) fun more next behind hn hb => ?_
      exact entitiesBehind_closing hn hb
    | ok r =>
      obtain ⟨next, rest⟩ := r
      obtain ⟨ha, comma, more, hc, rfl⟩ := exists_comma h he
      have hlt := length_of_entityWith (fun _ _ _ hq => Nat.le_of_lt (length_of_entities hq)) he
      obtain ⟨ts, rfl, hts⟩ := entityWith_follows he
      have hmore : ∀ others, entitiesBehind siblings (ts ++ [comma] ++ others) =
          entitiesBehind (siblings ++ [next]) others := by
        intro others
        rw [← List.append_cons]
        exact entitiesBehind_more (hts _ (.cons comma more others)) ha hc
      rw [List.append_cons, hmore] at h
      rw [List.append_cons]
      refine (ih more.length (Nat.lt_of_succ_lt hlt) h rfl).lift _ (fun others err he => ?_)
        fun others found behind hf _ => ?_
      · rw [hmore, he]
      · rw [hmore, hf]
        exact .read found

end Parser

/-! ### Token lists -/

open NestedQuery.Parser

/-- The syntax is right: this is a query, or what keeps it from being one is an alias that siblings
share. -/
def SyntaxOk (result : Except ParseError Query) : Prop :=
  (∃ query, result = .ok query) ∨
    ∃ aliasName position, result = .error (.duplicateAlias aliasName position)

theorem parseTokens_eq {tokens : List Token} (h : tokens ≠ []) :
    parseTokens tokens =
      match query tokens with
      | .error e => .error e
      | .ok (query, []) => .ok query
      | .ok (_, token :: rest) => .error (unexpected .commaOrEnd none (token :: rest)) :=
  if_neg h

/-- Tokens that are accepted to their end are a query up to its aliases. -/
theorem syntaxOk_of_accepted {tokens : List Token} (h : tokens ≠ [])
    (ha : Accepted [] (query tokens)) : SyntaxOk (parseTokens tokens) := by
  rw [parseTokens_eq h]
  generalize query tokens = x at ha
  cases ha with
  | read query => exact .inl ⟨query, rfl⟩
  | duplicate aliasName position => exact .inr ⟨aliasName, position, rfl⟩

/-- An unexpected token, or the end, is the first fault: what is before it can be completed, and
what is behind it does not matter. -/
theorem parseTokens_unexpected {tokens : List Token} {e : SyntaxError}
    (h : parseTokens tokens = .error (.unexpected e)) :
    ∃ before behind, tokens = before ++ behind ∧
      e.found = behind.head?.map (fun token => ⟨token.text, token.position⟩) ∧
      (∀ other : List Token, other.head? = behind.head? →
        parseTokens (before ++ other) = .error (.unexpected e)) ∧
      ∃ fillers, (behind = [] → fillers ≠ []) ∧
        ∀ words, Fill fillers words → SyntaxOk (parseTokens (before ++ words)) := by
  have hne : tokens ≠ [] := by
    rintro rfl
    cases h
  rw [parseTokens_eq hne] at h
  split at h
  · next err hq =>
    cases h
    have hs : Stuck query tokens (.unexpected e) := stuck_entities hq
    generalize herr : ParseError.unexpected e = err at hs
    obtain ⟨before, behind, hf, fillers, hfillers, hc⟩ := hs
    cases herr
    refine ⟨before, behind, rfl, rfl, fun other ho => ?_, fillers, fun _ => hfillers,
      fun words hw => ?_⟩
    · rw [parseTokens_eq (append_ne_nil_of_head? hne ho), hf other ho]
    · have hwords : words ≠ [] := by
        rintro rfl
        exact hfillers (List.forall₂_nil_right_iff.1 hw)
      have haccepted := hc words [] hw begins_nil
      rw [List.append_nil] at haccepted
      exact syntaxOk_of_accepted (by simp [hwords]) haccepted
  · cases h
  · next query token rest hq =>
    cases h
    obtain ⟨us, hus, rfl, hread⟩ := query_follows hq
    refine ⟨us, token :: rest, rfl, rfl, fun other ho => ?_, [], by simp, fun words hw => ?_⟩
    · obtain ⟨more, rfl⟩ := List.head?_eq_some_iff.1 ho
      rw [parseTokens_eq (by simp), hread (token :: more) (.inl rfl)]
      rfl
    · rw [List.forall₂_nil_left_iff.1 hw]
      refine syntaxOk_of_accepted (by simp [hus]) ?_
      rw [hread [] (.inr begins_nil)]
      exact .read query

end NestedQuery
