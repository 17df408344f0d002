/-
# The numbers of limits

The offset and the count of a limit are exactly the integers that are written
for them, whatever zeros these begin with. The scanner lets no integer pass
that does not fit a 64-bit word, so the parser never finds one out of range:
reading from tokens that fit, each phrase leaves tokens that fit or fails for
another reason (`Parser.Spares`). A text that has an integer out of range
fails before it is parsed, be it in a payload or behind a `#`.

Which integers are written for limits is seen from the tokens alone: those
behind each `| limit :`. Since `|` stands in front of modifiers only, the
limits of a query are those of its tokens, in order
(`Grammar.IsQuery.limits_eq`).

Key definitions: `Fits`, `Parser.Spares`, `Query.limits`, `limitsSaid`,
`Reaches`.
Key theorems: `parseTokens_spares`, `Grammar.IsQuery.limits_eq`,
`parse_limit_of_digits`, `Reaches.exists_faulty`, `parse_limits_exact`.
-/
import NestedQuery.Proofs.Composition
import NestedQuery.Proofs.LexicalErrors
import NestedQuery.Proofs.WrittenTokens

namespace NestedQuery

/-! ### Integers in range -/

/-- Every integer among the tokens fits its word. -/
def Fits (tokens : List Token) : Prop :=
  ∀ t ∈ tokens, t.kind = .integer → ∃ n, Numeral.word? t.text.toList = some n

theorem Fits.tail {token : Token} {tokens : List Token} (h : Fits (token :: tokens)) :
    Fits tokens := fun t ht => h t (List.mem_cons_of_mem _ ht)

/-- The text of an integer is read as the number that it denotes. -/
theorem Kind.Carries.word?_eq {text : String} (h : integer.Carries text) :
    Numeral.word? text.toList = some (Numeral.value text.toList) := by
  obtain ⟨⟨hne, hdigits⟩, hvalue⟩ := h
  exact Numeral.word?_eq_some_iff.2 ⟨hne, List.all_eq_true.2 hdigits, hvalue, rfl⟩

theorem Fits.of_scan {text : String} {tokens : List Token} (h : scan text = .ok tokens) :
    Fits tokens := by
  intro t ht hk
  have hcarries := carries_of_mem_scan h t ht
  rw [hk] at hcarries
  exact ⟨_, hcarries.word?_eq⟩

namespace Parser

/-- The phrase was read up to tokens that fit, or it failed for another reason than the range of
an integer. -/
inductive Spares {α : Type} : Reading α → Prop
  | read (a : α) {rest : List Token} (h : Fits rest) : Spares (.ok (a, rest))
  | failed (kinds : List Kind) (phrase : Option Phrase) (tokens : List Token) :
    Spares (.error (unexpected (.oneOf kinds) phrase tokens))
  | duplicate (aliasName : String) (position : Nat) :
    Spares (.error (.duplicateAlias aliasName position))

namespace Spares

variable {α β : Type} {x : Reading α} {e : ParseError}

theorem behind (h : Spares x) {a : α} {rest : List Token} (hx : x = .ok (a, rest)) : Fits rest := by
  subst hx
  cases h with
  | read _ h => exact h

/-- A failure stays what it is in the phrases around it. -/
theorem fails (h : Spares x) (hx : x = .error e) : Spares (.error e : Reading β) := by
  subst hx
  cases h with
  | failed kinds phrase tokens => exact .failed kinds phrase tokens
  | duplicate aliasName position => exact .duplicate aliasName position

theorem map (h : Spares x) (f : α → β) : Spares (x.map fun r => (f r.1, r.2)) := by
  cases h with
  | read a h => exact .read (f a) h
  | failed kinds phrase tokens => exact .failed kinds phrase tokens
  | duplicate aliasName position => exact .duplicate aliasName position

end Spares

variable {tokens : List Token} {phrase : Phrase}

/-! ### Phrases -/

theorem spares_expect (kinds : List Kind) (h : Fits tokens) :
    Spares (expect kinds phrase tokens) := by
  cases tokens with
  | nil => exact .failed _ _ _
  | cons token tokens =>
    by_cases hk : token.kind ∈ kinds
    · rw [expect, if_pos hk]
      exact .read _ h.tail
    · rw [expect, if_neg hk]
      exact .failed _ _ _

theorem spares_name (h : Fits tokens) : Spares (name phrase tokens) := by
  cases tokens with
  | nil => exact .failed _ _ _
  | cons token tokens =>
    by_cases hk : token.kind ∈ nameKinds
    · rw [name, if_pos hk]
      exact .read _ h.tail
    · rw [name, if_neg hk]
      exact .failed _ _ _

theorem spares_moreNames {stop : Nat} (h : Fits tokens) :
    Spares (moreNames phrase stop tokens) := by
  fun_induction moreNames phrase stop tokens with
  | case1 => exact .read _ h
  | case2 => exact .failed _ _ _
  | case3 stop dot hd segment tokens hs ih => exact (ih h.tail.tail).map (segment.text :: ·)
  | case4 => exact .failed _ _ _
  | case5 => exact .read _ h

theorem spares_path (h : Fits tokens) : Spares (path phrase tokens) := by
  unfold path
  split
  · next he => exact (spares_name h).fails he
  · next first rest hn =>
    have hrest : Fits rest := (spares_name h).behind hn
    exact (spares_moreNames hrest).map fun names => ".".intercalate (first.text :: names)

theorem fits_direction (h : Fits tokens) : Fits (direction tokens).2 := by
  unfold direction
  split
  · split
    · exact h.tail
    · exact h
  · exact h

theorem spares_sortTerms (h : Fits tokens) : Spares (sortTerms phrase tokens) := by
  fun_induction sortTerms phrase tokens with
  | case1 tokens e hp => exact (spares_path h).fails hp
  | case2 => exact .read _ (List.forall_mem_nil _)
  | case3 tokens property rest hp d comma more hd hc ih =>
    have hrest := fits_direction ((spares_path h).behind hp)
    rw [hd] at hrest
    exact (ih hrest.tail).map (⟨property, d⟩ :: ·)
  | case4 tokens property rest hp d comma more hd hc =>
    have hrest := fits_direction ((spares_path h).behind hp)
    rw [hd] at hrest
    exact .read _ hrest

/-- An integer that fits is in range. -/
theorem spares_size (h : Fits tokens) : Spares (size phrase tokens) := by
  unfold size
  split
  · next he => exact (spares_expect _ h).fails he
  · next token rest he =>
    have hrest : Fits rest := (spares_expect _ h).behind he
    obtain ⟨hk, rfl⟩ := expect_eq_ok_iff.1 he
    obtain ⟨n, hn⟩ := h token List.mem_cons_self (List.mem_singleton.1 hk)
    rw [hn]
    exact .read n hrest

theorem spares_limitArguments (h : Fits tokens) : Spares (limitArguments phrase tokens) := by
  unfold limitArguments
  split
  · next he => exact (spares_size h).fails he
  · exact .read _ (List.forall_mem_nil _)
  · next first comma rest hs =>
    have hrest := (spares_size h).behind hs
    split
    · split
      · exact .failed _ _ _
      · split
        · exact (spares_size hrest.tail).map fun n => (first, some n)
        · split
          · exact .read _ hrest.tail.tail
          · exact .failed _ _ _
    · exact .read _ hrest

theorem fits_payload (depth : Nat) (h : Fits tokens) : Fits (payload depth tokens).2 := by
  fun_induction payload depth tokens with
  | case1 => exact h
  | case2 => exact h
  | case3 depth token rest _ r ih => exact ih h.tail

theorem fits_genericPayload (h : Fits tokens) : Fits (genericPayload tokens).2 := by
  unfold genericPayload
  split
  · split
    · exact fits_payload 0 h.tail
    · exact h
  · exact h

theorem spares_modifier {p : String} (h : Fits tokens) : Spares (modifier p tokens) := by
  unfold modifier
  split
  · next he => exact (spares_expect _ h).fails he
  · next keyword rest hk =>
    have hrest : Fits rest := (spares_expect _ h).behind hk
    split
    · split
      · next he => exact (spares_expect _ hrest).fails he
      · next hc => exact (spares_sortTerms ((spares_expect _ hrest).behind hc)).map Modifier.sort
    · split
      · split
        · next he => exact (spares_expect _ hrest).fails he
        · next hc =>
          exact (spares_limitArguments ((spares_expect _ hrest).behind hc)).map
            fun r => Modifier.limit r.1 r.2
      · split
        · exact .read _ hrest
        · exact .read _ (fits_genericPayload hrest)

theorem spares_modifiers {p : String} (h : Fits tokens) : Spares (modifiers p tokens) := by
  fun_induction modifiers p tokens with
  | case1 => exact .read _ h
  | case2 pipe rest hp e hm => exact (spares_modifier h.tail).fails hm
  | case3 pipe rest hp m more hm ih =>
    exact (ih ((spares_modifier h.tail).behind hm)).map (m :: ·)
  | case4 => exact .read _ h

theorem spares_marked {mark : Kind} {kinds : List Kind} (h : Fits tokens) :
    Spares (marked mark kinds phrase tokens) := by
  unfold marked
  split
  · exact .read _ h
  · split
    · exact (spares_expect kinds h.tail).map fun token => some token.text
    · exact .read _ h

theorem spares_heading (h : Fits tokens) : Spares (heading tokens) := by
  unfold heading
  split
  · next he => exact (spares_path h).fails he
  · next p rest hp =>
    have hpath : Fits rest := (spares_path h).behind hp
    split
    · next he => exact (spares_marked hpath).fails he
    · next identifier rest hi =>
      have hidentifier : Fits rest := (spares_marked hpath).behind hi
      split
      · next he => exact (spares_marked hidentifier).fails he
      · next aliasName rest ha =>
        exact (spares_modifiers ((spares_marked hidentifier).behind ha)).map
          (Entity.mk (aliasName.getD p) p identifier none)

theorem spares_entityWith {f : List Token → Reading Query}
    (hf : ∀ {inner : List Token}, Fits inner → Spares (f inner)) (h : Fits tokens) :
    Spares (entityWith f tokens) := by
  unfold entityWith
  split
  · next he => exact (spares_heading h).fails he
  · exact .read _ (List.forall_mem_nil _)
  · next bare brace rest hh =>
    have hrest := (spares_heading h).behind hh
    split
    · have hinner : Spares (if rest = [] then .ok ([], []) else f rest) := by
        by_cases hnil : rest = []
        · rw [if_pos hnil]
          exact .read _ (List.forall_mem_nil _)
        · rw [if_neg hnil]
          exact hf hrest.tail
      split
      · next he => exact hinner.fails he
      · next children behind hq =>
        exact (spares_expect [.closeCurly] (hinner.behind hq)).map fun _ =>
          { bare with children := some children }
    · exact .read _ hrest

theorem spares_entities (bound : Nat) (siblings : Query) (h : Fits tokens) :
    Spares (entities bound siblings tokens) := by
  induction bound generalizing siblings tokens with
  | zero => exact .failed _ _ _
  | succ bound ih =>
    have hentity := spares_entityWith (ih []) h
    unfold entities
    split
    · next he => exact hentity.fails he
    · next next rest he =>
      have hrest := hentity.behind he
      split
      · exact .duplicate _ _
      · split
        · exact .read _ hrest
        · split
          · exact ih _ hrest.tail
          · exact .read _ hrest

end Parser

/-- If all integers fit, the range of an integer is not what the parser complains of. -/
theorem parseTokens_spares {tokens : List Token} (h : Fits tokens) {e : SyntaxError}
    (he : parseTokens tokens = .error (.unexpected e)) : e.expected ≠ .integerInRange := by
  unfold parseTokens at he
  split at he
  · cases he
  · have hquery : Parser.Spares (Parser.query tokens) := Parser.spares_entities _ _ h
    split at he
    · next e' hx =>
      rw [hx] at hquery
      cases he
      cases hquery with
      | failed _ _ _ => exact Expectation.noConfusion
    · cases he
    · cases he
      exact Expectation.noConfusion

/-! ### The limits that tokens say -/

/-- The offset and the count, if the modifier is a limit. -/
def Modifier.limit? : Modifier → Option (Nat × Option Nat)
  | limit offset count => some (offset, count)
  | _ => none

/-- The offsets and counts of the entity's own limits. -/
def Entity.limits (entity : Entity) : List (Nat × Option Nat) :=
  entity.modifiers.filterMap Modifier.limit?

/-- The offsets and counts of all limits, at any depth, in the order in which they are written. -/
def Query.limits (query : Query) : List (Nat × Option Nat) :=
  (Query.preorder query).flatMap Entity.limits

/-- The number that the text of a token denotes in decimal, however large it is. -/
def Token.number (token : Token) : Nat := Numeral.value token.text.toList

/-- What a limit says whose first argument is this token: a count, or an offset if there is a comma
behind it; the count behind the comma is an integer or left open. -/
def argumentsSaid (first : Token) : List Token → Nat × Option Nat
  | comma :: second :: _ =>
    if comma.kind = .comma then
      (first.number, if second.kind = .integer then some second.number else none)
    else (0, some first.number)
  | _ => (0, some first.number)

/-- What is said by a limit whose keyword these tokens begin with. -/
def limitSaid? : List Token → Option (Nat × Option Nat)
  | keyword :: colon :: first :: rest =>
    if keyword.kind = .identifier ∧ keyword.text = "limit" ∧ colon.kind = .colon ∧
        first.kind = .integer then
      some (argumentsSaid first rest)
    else none
  | _ => none

/-- What is said by the limits among these tokens, each one behind its `|`. -/
def limitsSaid : List Token → List (Nat × Option Nat)
  | [] => []
  | token :: rest =>
    if token.kind = .pipe then (limitSaid? rest).toList ++ limitsSaid rest else limitsSaid rest

namespace Grammar

variable {behind ts : List Token}

theorem limitsSaid_of_no_pipe (h : ∀ t ∈ ts, t.kind ≠ .pipe) :
    limitsSaid (ts ++ behind) = limitsSaid behind := by
  induction ts with
  | nil => rfl
  | cons token ts ih =>
    obtain ⟨htoken, hts⟩ := List.forall_mem_cons.1 h
    rw [List.cons_append, limitsSaid, if_neg htoken, ih hts]

theorem limitSaid?_of_text {keyword : Token} (h : keyword.text ≠ "limit") (rest : List Token) :
    limitSaid? (keyword :: rest) = none := by
  unfold limitSaid?
  split
  · next hcons =>
    cases hcons
    exact if_neg fun hk => h hk.2.1
  · rfl

theorem Size.number_eq {token : Token} {n : Nat} (h : Size token n) : token.number = n :=
  (Numeral.word?_eq_some_iff.1 h.2).2.2.2

/-- The arguments of a limit begin with an integer, and they are what is said from it on. -/
theorem Arguments.said {r : Nat × Option Nat} (h : Arguments behind ts r) :
    ∃ first rest, ts ++ behind = first :: rest ∧ first.kind = .integer ∧
      argumentsSaid first rest = r := by
  cases h with
  | @count token n hn hb =>
    refine ⟨token, behind, rfl, hn.1, ?_⟩
    rcases behind with _ | ⟨comma, _ | ⟨second, behind⟩⟩
    · simp only [argumentsSaid, hn.number_eq]
    · simp only [argumentsSaid, hn.number_eq]
    · rw [argumentsSaid, if_neg (without_cons.1 hb), hn.number_eq]
  | @offsetAndCount first comma second m n hm hc hn =>
    refine ⟨first, comma :: second :: behind, rfl, hm.1, ?_⟩
    rw [argumentsSaid, if_pos hc, if_pos hn.1, hm.number_eq, hn.number_eq]
  | @offset first comma second m hm hc hn =>
    refine ⟨first, comma :: second :: behind, rfl, hm.1, ?_⟩
    rw [argumentsSaid, if_pos hc, if_neg (by simp [hn]), hm.number_eq]

/-- A modifier is a limit exactly if its tokens say so, and then it is the limit that they say. -/
theorem IsModifier.limitSaid?_eq {m : Modifier} (h : IsModifier behind ts m) :
    limitSaid? (ts ++ behind) = m.limit? := by
  have known : ∀ {word : Token}, word.text ∉ knownWords → word.text ≠ "limit" := by
    rintro word hw ht
    exact hw (ht ▸ by decide)
  cases h with
  | sort _ ht _ _ => exact limitSaid?_of_text (by simp [ht]) _
  | @limit word colon tokens offset count hw ht hc h =>
    obtain ⟨first, rest, hcons, hinteger, hsaid⟩ := h.said
    rw [List.cons_append, List.cons_append, hcons, limitSaid?, if_pos ⟨hw, ht, hc, hinteger⟩, hsaid]
    rfl
  | randomize _ ht => exact limitSaid?_of_text (by simp [ht]) _
  | bare _ ht _ => exact limitSaid?_of_text (known ht) _
  | payload _ ht _ _ => exact limitSaid?_of_text (known ht) _

theorem Modifiers.limitsSaid_eq {ms : List Modifier} (h : Modifiers behind ts ms) :
    limitsSaid (ts ++ behind) = ms.filterMap Modifier.limit? ++ limitsSaid behind := by
  induction h with
  | done _ => rfl
  | @more pipe tokens rest m ms hp hm _ ih =>
    rw [List.cons_append, limitsSaid, if_pos hp, List.append_assoc, hm.limitSaid?_eq,
      limitsSaid_of_no_pipe hm.no_pipe, ih, List.filterMap_cons]
    cases m.limit? <;> rfl

theorem Heading.limitsSaid_eq {entity : Entity} (h : Heading behind ts entity) :
    limitsSaid (ts ++ behind) = entity.limits ++ limitsSaid behind := by
  cases h with
  | mk hp hi ha hm =>
    rw [List.append_assoc, List.append_assoc, List.append_assoc,
      limitsSaid_of_no_pipe (ne_of_kinds hp.kinds (by decide)),
      limitsSaid_of_no_pipe (ne_of_kinds hi.kinds (by decide)),
      limitsSaid_of_no_pipe (ne_of_kinds ha.kinds (by decide)), hm.limitsSaid_eq]
    rfl

theorem limitsSaid_cons {token : Token} {kind : Kind} (h : token.kind = kind) (hk : kind ≠ .pipe)
    (rest : List Token) : limitsSaid (token :: rest) = limitsSaid rest :=
  if_neg (h ▸ hk)

mutual

theorem IsEntity.limitsSaid_eq {behind ts : List Token} {entity : Entity} :
    IsEntity behind ts entity →
      limitsSaid (ts ++ behind) = entity.preorder.flatMap Entity.limits ++ limitsSaid behind
  | .bare h _ => by
    have hbare : entity.preorder = [entity] := by
      cases h
      rfl
    rw [h.limitsSaid_eq, hbare, List.flatMap_singleton]
  | @IsEntity.nested behind tokens inner opening closing entity children h ho hq hc => by
    have hchildren := IsQuery.limits_eq hq
    have hlist : tokens ++ opening :: inner ++ [closing] ++ behind =
        tokens ++ (opening :: (inner ++ closing :: behind)) := by simp
    rw [hlist, h.limitsSaid_eq, limitsSaid_cons ho (by decide), hchildren,
      limitsSaid_cons hc (by decide), Entity.preorder, List.flatMap_cons, List.append_assoc]
    rfl

/-- The limits of a query are those that its tokens say. -/
theorem IsQuery.limits_eq {behind ts : List Token} {query : Query} :
    IsQuery behind ts query → limitsSaid (ts ++ behind) = query.limits ++ limitsSaid behind
  | @IsQuery.last _ _ entity h _ => by
    rw [IsEntity.limitsSaid_eq h, Query.limits, Query.preorder, Query.preorder, List.append_nil]
  | @IsQuery.more behind tokens rest comma entity query h hc hq => by
    have hfirst := IsEntity.limitsSaid_eq h
    have hothers := IsQuery.limits_eq hq
    rw [List.append_assoc, List.cons_append, hfirst, limitsSaid_cons hc (by decide), hothers,
      Query.limits, Query.limits, Query.preorder, List.flatMap_append, List.append_assoc]

end

end Grammar

/-! ### All numbers of a word -/

/-- Tokens that say the same as drafts are the drafts at some places. -/
theorem exists_places {tokens : List Token} {drafts : List Draft}
    (h : tokens.map Token.content = drafts.map Draft.content) :
    ∃ place : Nat → Nat,
      tokens = drafts.mapIdx fun i draft => ⟨draft.kind, draft.text, place i⟩ := by
  refine ⟨fun i => tokens[i]?.elim 0 Token.position, List.ext_getElem? fun i => ?_⟩
  have hi : tokens[i]?.map Token.content = drafts[i]?.map Draft.content := by
    rw [← List.getElem?_map, ← List.getElem?_map, h]
  rw [List.getElem?_mapIdx]
  rcases ht : tokens[i]? with _ | token
  · rw [ht, Option.map_none, eq_comm, Option.map_eq_none_iff] at hi
    rw [hi, Option.map_none]
  · rw [ht, Option.map_some, eq_comm, Option.map_eq_some_iff] at hi
    obtain ⟨draft, hdraft, hsame⟩ := hi
    obtain ⟨hkind, htext⟩ := Prod.mk.inj hsame
    simp only [hdraft, Option.map_some, hkind, htext, ht, Option.elim_some]

/-- The tokens of an entity with a limit. -/
def limitDrafts (first second : String) : List Draft :=
  [⟨.identifier, "x", {}⟩, ⟨.pipe, "|", {}⟩, ⟨.identifier, "limit", {}⟩, ⟨.colon, ":", {}⟩,
    ⟨.integer, first, {}⟩, ⟨.comma, ",", {}⟩, ⟨.integer, second, {}⟩]

theorem isQuery_limitDrafts {first second : String} {m n : Nat}
    (hm : Numeral.word? first.toList = some m) (hn : Numeral.word? second.toList = some n)
    (place : Nat → Nat) :
    Grammar.IsQuery [] ((limitDrafts first second).mapIdx fun i draft =>
      ⟨draft.kind, draft.text, place i⟩) [⟨"x", "x", none, none, [.limit m (some n)]⟩] := by
  let x : Token := ⟨.identifier, "x", place 0⟩
  let pipe : Token := ⟨.pipe, "|", place 1⟩
  let word : Token := ⟨.identifier, "limit", place 2⟩
  let colon : Token := ⟨.colon, ":", place 3⟩
  let offset : Token := ⟨.integer, first, place 4⟩
  let comma : Token := ⟨.comma, ",", place 5⟩
  let count : Token := ⟨.integer, second, place 6⟩
  have harguments : Grammar.Arguments [] [offset, comma, count] (m, some n) :=
    .offsetAndCount ⟨rfl, hm⟩ rfl ⟨rfl, hn⟩
  have hmodifier : Grammar.IsModifier [] [word, colon, offset, comma, count] (.limit m (some n)) :=
    .limit rfl rfl rfl harguments
  have hmodifiers : Grammar.Modifiers [] (pipe :: ([word, colon, offset, comma, count] ++ []))
      [.limit m (some n)] :=
    .more rfl hmodifier (.done (Grammar.without_nil _))
  have hbehind : ∀ kind, kind ≠ .pipe →
      Grammar.Without kind [pipe, word, colon, offset, comma, count] := fun kind hk =>
    Grammar.without_cons.2 (Ne.symm hk)
  have hpath : Grammar.Path [pipe, word, colon, offset, comma, count] [x] "x" := by
    refine ⟨["x"], .last List.mem_cons_self ?_, rfl⟩
    rintro _ ⟨rfl⟩ hdot
    cases hdot.1
  have hheading : Grammar.Heading [] ([x] ++ [] ++ [] ++ _) ⟨Option.getD none "x", "x", none, none,
      [.limit m (some n)]⟩ :=
    .mk hpath (.absent (hbehind _ (by decide))) (.absent (hbehind _ (by decide))) hmodifiers
  exact .last (.bare hheading (Grammar.without_nil _)) (Grammar.without_nil _)

/-- Whatever digits denote the numbers of a limit, they are read if they fit. -/
theorem parse_limit_of_digits {first second : String} (hf : Kind.integer.Carries first)
    (hs : Kind.integer.Carries second) :
    parse ("x | limit : " ++ first ++ " , " ++ second) =
      .ok [⟨"x", "x", none, none,
        [.limit (Numeral.value first.toList) (some (Numeral.value second.toList))]⟩] := by
  have hcarries : ∀ draft ∈ limitDrafts first second, draft.kind.Carries draft.text := by
    unfold limitDrafts
    simp only [List.forall_mem_cons, List.not_mem_nil, false_imp_iff, implies_true, and_true]
    have hx : IsIdentifier "x" := by decide
    have hlimit : IsIdentifier "limit" := by decide
    exact ⟨hx, ⟨'|', rfl, rfl⟩, hlimit, ⟨':', rfl, rfl⟩, hf, ⟨',', rfl, rfl⟩, hs⟩
  have htext : writeTokens (limitDrafts first second) =
      "x | limit : " ++ first ++ " , " ++ second := by
    simp [writeTokens, limitDrafts, Draft.chars, String.ext_iff]
  obtain ⟨tokens, hlayout, hcontent⟩ := layout_writeTokens 0 hcarries
  rw [htext] at hlayout
  obtain ⟨place, rfl⟩ := exists_places hcontent
  have hquery := isQuery_limitDrafts hf.word?_eq hs.word?_eq place
  refine parse_eq_ok_iff.2 ⟨_, hlayout.scanFrom_eq, .inr ⟨hquery, ?_, ?_⟩⟩
  · simp [Query.aliases]
  · refine Query.distinctBelow_cons.2 ⟨?_, Query.distinctBelow_nil⟩
    rintro _ ⟨⟩

/-! ### Integers out of range -/

/-- From the place `p` on, these characters are lexemes with blanks between them, up to one that
begins at the place `q`, where the text goes on with `rest`. The lexemes in front of it are written
tokens that are not prolonged by what follows, or they are at fault. -/
inductive Reaches (q : Nat) (rest : List Char) : Nat → List Char → Prop
  | here {p : Nat} {gap : List Char} (hb : Blank gap) (hq : p + gap.length = q) :
      Reaches q rest p (gap ++ rest)
  | token {p : Nat} {gap w more text : List Char} {kind : Kind} (hb : Blank gap)
      (hs : Spelling w kind text) (he : Ends kind more)
      (h : Reaches q rest (p + gap.length + w.length) more) : Reaches q rest p (gap ++ (w ++ more))
  | fault {p : Nat} {gap w more : List Char} {e : LexError} (hb : Blank gap) (hne : w ≠ [])
      (hd : Defect (p + gap.length) (w ++ more) e)
      (h : Reaches q rest (p + gap.length + w.length) more) : Reaches q rest p (gap ++ (w ++ more))

namespace Reaches

variable {p q : Nat} {cs rest : List Char}

theorem le (h : Reaches q rest p cs) : p ≤ q := by
  induction h with
  | here _ hq => omega
  | token _ _ _ _ ih => omega
  | fault _ _ _ _ ih => omega

/-- If the lexeme that is reached is at fault, it is reported, or one in front of it is. -/
theorem exists_faulty {e : LexError} (h : Reaches q rest p cs) (hd : Defect q rest e) :
    ∃ e', Faulty p cs e' ∧ (e' = e ∨ ∃ before behind, cs = before ++ behind ∧
      p + before.length < q ∧ Defect (p + before.length) behind e') := by
  induction h with
  | here hb hq => exact ⟨e, .here hb (hq ▸ hd), .inl rfl⟩
  | @token p gap w more text kind hb hs he _ ih =>
    obtain ⟨e', hfaulty, hearlier⟩ := ih
    refine ⟨e', .behind hb hs he hfaulty, hearlier.imp_right ?_⟩
    rintro ⟨before, behind, rfl, hplace, hdefect⟩
    have hlength : p + (gap ++ (w ++ before)).length = p + gap.length + w.length + before.length := by
      simp only [List.length_append]
      omega
    exact ⟨gap ++ (w ++ before), behind, by simp, hlength ▸ hplace, hlength ▸ hdefect⟩
  | @fault p gap w more e' hb hne hdefect h _ =>
    have hplace := h.le
    have hw := List.length_pos_of_ne_nil hne
    exact ⟨e', .here hb hdefect, .inr ⟨gap, w ++ more, rfl, by omega, hdefect⟩⟩

end Reaches

/-- **The numbers of limits are exact.** The parser never complains that an integer is out of range.
The limits of a query have the numbers that are written for them, in order, and these may be all
numbers that fit a word, with any zeros in front. A text in which an integer that does not fit is
reached, wherever that is, fails with this integer or with a lexeme at fault in front of it. -/
theorem parse_limits_exact :
    (∀ text e, parse text = .error (.unexpected e) → e.expected ≠ .integerInRange) ∧
    (∀ text query, parse text = .ok query →
      ∃ tokens, scan text = .ok tokens ∧ query.limits = limitsSaid tokens) ∧
    (∀ first second, Kind.integer.Carries first → Kind.integer.Carries second →
      parse ("x | limit : " ++ first ++ " , " ++ second) =
        .ok [⟨"x", "x", none, none,
          [.limit (Numeral.value first.toList) (some (Numeral.value second.toList))]⟩]) ∧
    ∀ (text : String) (q : Nat) (digits more : List Char), IsDigits digits →
      Maximal .integer more → wordSize ≤ Numeral.value digits →
      Reaches q (digits ++ more) 0 text.toList →
      ∃ e, parse text = .error (.lexical e) ∧
        (e = .invalidNumber (String.ofList digits) q ∨
          ∃ before behind, text.toList = before ++ behind ∧ before.length < q ∧
            Defect before.length behind e) := by
  refine ⟨fun text e h => ?_, fun text query h => ?_, fun first second => parse_limit_of_digits,
    fun text q digits more hd hm hv h => ?_⟩
  · unfold parse at h
    split at h
    · cases h
    · next tokens hscan => exact parseTokens_spares (.of_scan hscan) h
  · obtain ⟨tokens, hscan, ⟨rfl, rfl⟩ | ⟨hquery, -⟩⟩ := parse_eq_ok_iff.1 h
    · exact ⟨[], hscan, rfl⟩
    · have hlimits := hquery.limits_eq
      rw [List.append_nil, limitsSaid, List.append_nil] at hlimits
      exact ⟨tokens, hscan, hlimits.symm⟩
  · obtain ⟨e, hfaulty, he⟩ := h.exists_faulty (.invalidNumber hd hm hv)
    refine ⟨e, ?_, by simpa only [Nat.zero_add] using he⟩
    rw [parse, scan, hfaulty.scanFrom_eq]

/-- A limit without a number, one with the largest number of a word and zeros in front of the
other, and an integer out of range in two places: behind a `#`, and behind a sign that begins no
token. -/
theorem parse_limits_exact_at_bounds :
    let fails text := ∃ e, parse text = .error (.lexical e)
    (∃ e, parse "x|limit: y" = .error (.unexpected e) ∧ e.expected ≠ .integerInRange) ∧
    (∃ query, parse "x | limit : 007 , 18446744073709551615" = .ok query ∧
      query.limits = [(7, some 18446744073709551615)] ∧
      ∃ tokens, scan "x | limit : 007 , 18446744073709551615" = .ok tokens ∧
        query.limits = limitsSaid tokens) ∧
    fails "x#18446744073709551616" ∧ fails "x;18446744073709551616" := by
  intro fails
  obtain ⟨hspared, hsaid, hread, hreached⟩ := parse_limits_exact
  have hcarries : Kind.integer.Carries "007" ∧ Kind.integer.Carries "18446744073709551615" :=
    ⟨⟨⟨by decide, List.all_eq_true.1 rfl⟩, by decide⟩,
      ⟨⟨by decide, List.all_eq_true.1 rfl⟩, by decide⟩⟩
  let digits := "18446744073709551616".toList
  have hdigits : IsDigits digits := ⟨by decide, List.all_eq_true.1 rfl⟩
  have hlarge : wordSize ≤ Numeral.value digits := by decide
  have hend : Maximal .integer [] := maximal_iff_ends.2 (ends_nil _)
  have hword : IsWord ['x'] := by decide
  have hx : Spelling ['x'] .identifier ['x'] := .word hword
  have hnumber : Reaches 2 (digits ++ []) 2 digits := .here blank_nil rfl
  have hsharp : Reaches 2 (digits ++ []) 0 ('x' :: '#' :: digits) := by
    refine .token blank_nil hx ?_ (.token blank_nil (.punctuation (c := '#') rfl) trivial hnumber)
    rintro _ ⟨rfl⟩
    decide
  have hsign : Defect 1 (';' :: digits) (.unexpected ';' 1) :=
    .unexpected (by decide) (beginsNone_iff.2 ⟨rfl, by decide, by decide, by decide⟩)
  have hfault : Reaches 2 (digits ++ []) 0 ('x' :: ';' :: digits) := by
    refine .token blank_nil hx ?_ (.fault (w := [';']) blank_nil (List.cons_ne_nil _ _) hsign hnumber)
    rintro _ ⟨rfl⟩
    decide
  refine ⟨?_, ?_, ?_, ?_⟩
  · have hparse : ∃ e, parse "x|limit: y" = .error (.unexpected e) := by
      refine ⟨⟨.oneOf [.integer], some ⟨"y", 9⟩, some (.limitOf "x")⟩, ?_⟩
      set_option maxRecDepth 2000 in cbv
    obtain ⟨e, he⟩ := hparse
    exact ⟨e, he, hspared _ e he⟩
  · have hparse := hread "007" "18446744073709551615" hcarries.1 hcarries.2
    exact ⟨_, hparse, by decide, hsaid _ _ hparse⟩
  · obtain ⟨e, he, -⟩ := hreached "x#18446744073709551616" 2 digits [] hdigits hend hlarge hsharp
    exact ⟨e, he⟩
  · obtain ⟨e, he, -⟩ := hreached "x;18446744073709551616" 2 digits [] hdigits hend hlarge hfault
    exact ⟨e, he⟩

end NestedQuery
