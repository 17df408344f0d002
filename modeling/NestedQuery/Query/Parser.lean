/-
# From tokens to a query

`parseTokens` reads a token list by the grammar

    Query     ::= Entity ("," Entity)*
    Entity    ::= Path ["#" (integer | identifier | string)] ["as" identifier]
                  ("|" Modifier)* ["{" Query "}"]
    Path      ::= Name ("." Name)*
    Name      ::= identifier | "as" | "null"
    Modifier  ::= "sort" ":" Term ("," Term)*
                | "limit" ":" integer ["," (integer | "null")]
                | "randomize"
                | identifier [":" payload]
    Term      ::= Path [identifier]

with one token of lookahead: every optional part is taken if its first token
is there, and every repetition goes on as long as it can. A point joins two
names only where the name before it ends. A payload runs up to the next `|`,
`{`, `}` or a comma outside parentheses. The query without tokens is empty.

Every phrase returns what it leaves of the tokens; each lemma `length_of_…`
says that a phrase uses up tokens, which is why reading ends.

Key definitions: `Parser.path`, `Parser.modifier`, `Parser.heading`,
`Parser.entityWith`, `Parser.entities`, `parseTokens`, `parse`.
Key theorems: `Parser.length_of_entities`, `Parser.entities_eq`.
-/
import NestedQuery.Query
import NestedQuery.Query.ParseError
import NestedQuery.Token.Cursor

namespace NestedQuery
namespace Parser

/-- The outcome of reading a phrase: what it says and the tokens behind it. -/
abbrev Reading (α : Type) := Except ParseError (α × List Token)

/-- The error of finding these tokens where something else must stand. -/
def unexpected (expected : Expectation) (phrase : Option Phrase) (tokens : List Token) :
    ParseError :=
  .unexpected ⟨expected, tokens.head?.map fun t => ⟨t.text, t.position⟩, phrase⟩

/-- A token of one of these kinds. -/
def expect (kinds : List Kind) (phrase : Phrase) (tokens : List Token) : Reading Token :=
  match tokens with
  | token :: rest =>
    if token.kind ∈ kinds then .ok (token, rest)
    else .error (unexpected (.oneOf kinds) phrase tokens)
  | [] => .error (unexpected (.oneOf kinds) phrase tokens)

theorem expect_eq_ok_iff {kinds : List Kind} {phrase : Phrase} {tokens rest : List Token}
    {token : Token} :
    expect kinds phrase tokens = .ok (token, rest) ↔
      token.kind ∈ kinds ∧ tokens = token :: rest := by
  cases tokens with
  | nil => simp [expect]
  | cons t ts =>
    by_cases h : t.kind ∈ kinds
    · simp only [expect, h, if_true, Except.ok.injEq, Prod.mk.injEq, List.cons.injEq]
      constructor
      · rintro ⟨rfl, rfl⟩
        exact ⟨h, rfl, rfl⟩
      · exact fun h' => h'.2
    · simp only [expect, h, if_false, reduceCtorEq, List.cons.injEq, false_iff]
      rintro ⟨h', rfl, -⟩
      exact h h'

/-! ### Property paths -/

/-- The kinds of tokens that are names of properties. -/
def nameKinds : List Kind := [.identifier, .asKeyword, .nullKeyword]

/-- The name of a property; the keywords are names, too. -/
def name (phrase : Phrase) (tokens : List Token) : Reading Token :=
  match tokens with
  | token :: rest =>
    if token.kind ∈ nameKinds then .ok (token, rest)
    else .error (unexpected (.oneOf [.identifier]) phrase tokens)
  | [] => .error (unexpected (.oneOf [.identifier]) phrase tokens)

theorem name_eq_ok_iff {phrase : Phrase} {tokens rest : List Token} {token : Token} :
    name phrase tokens = .ok (token, rest) ↔ token.kind ∈ nameKinds ∧ tokens = token :: rest := by
  cases tokens with
  | nil => simp [name]
  | cons t ts =>
    by_cases h : t.kind ∈ nameKinds
    · simp only [name, h, if_true, Except.ok.injEq, Prod.mk.injEq, List.cons.injEq]
      constructor
      · rintro ⟨rfl, rfl⟩
        exact ⟨h, rfl, rfl⟩
      · exact fun h' => h'.2
    · simp only [name, h, if_false, reduceCtorEq, List.cons.injEq, false_iff]
      rintro ⟨h', rfl, -⟩
      exact h h'

/-- The names joined by points to a name that ends at `stop`. -/
def moreNames (phrase : Phrase) (stop : Nat) : List Token → Reading (List String)
  | [] => .ok ([], [])
  | dot :: tokens =>
    if dot.kind = .dot ∧ dot.position = stop then
      match tokens with
      | [] => .error (unexpected (.oneOf [.identifier]) phrase [])
      | segment :: rest =>
        if segment.kind ∈ nameKinds then
          (moreNames phrase segment.stop rest).map fun r => (segment.text :: r.1, r.2)
        else .error (unexpected (.oneOf [.identifier]) phrase (segment :: rest))
    else .ok ([], dot :: tokens)

theorem length_of_moreNames {phrase : Phrase} {stop : Nat} {tokens rest : List Token}
    {names : List String} (h : moreNames phrase stop tokens = .ok (names, rest)) :
    rest.length ≤ tokens.length := by
  fun_induction moreNames phrase stop tokens generalizing names rest with
  | case1 => simp_all
  | case2 => simp at h
  | case3 stop dot hd segment tokens hs ih =>
    obtain ⟨⟨ns, r⟩, hr, he⟩ := map_eq_ok_iff.1 h
    cases he
    have := ih hr
    simp only [List.length_cons]
    omega
  | case4 => simp at h
  | case5 => cases h; simp

/-- A property path: names joined by points that begin where the name before them ends. -/
def path (phrase : Phrase) (tokens : List Token) : Reading String :=
  match name phrase tokens with
  | .error e => .error e
  | .ok (first, rest) =>
    (moreNames phrase first.stop rest).map fun r => (".".intercalate (first.text :: r.1), r.2)

theorem length_of_path {phrase : Phrase} {tokens rest : List Token} {p : String}
    (h : path phrase tokens = .ok (p, rest)) : rest.length < tokens.length := by
  unfold path at h
  split at h
  · simp at h
  · next first ts hn =>
    obtain ⟨⟨ns, r⟩, hr, he⟩ := map_eq_ok_iff.1 h
    cases he
    have := length_of_moreNames hr
    rw [(name_eq_ok_iff.1 hn).2]
    simp only [List.length_cons]
    omega

/-! ### Modifiers -/

/-- The direction of a sort term: an identifier, if there is one. -/
def direction : List Token → SortDirection × List Token
  | token :: rest =>
    if token.kind = .identifier then (.ofWord token.text, rest) else (.ascending, token :: rest)
  | [] => (.ascending, [])

theorem length_of_direction (tokens : List Token) :
    (direction tokens).2.length ≤ tokens.length := by
  unfold direction
  split
  · split <;> simp
  · simp

/-- One or more sort terms. -/
def sortTerms (phrase : Phrase) (tokens : List Token) : Reading (List SortTerm) :=
  match _h : path phrase tokens with
  | .error e => .error e
  | .ok (property, rest) =>
    match _h' : direction rest with
    | (d, []) => .ok ([⟨property, d⟩], [])
    | (d, comma :: more) =>
      if comma.kind = .comma then
        (sortTerms phrase more).map fun r => (⟨property, d⟩ :: r.1, r.2)
      else .ok ([⟨property, d⟩], comma :: more)
termination_by tokens.length
decreasing_by
  have h1 := length_of_path ‹path _ _ = _›
  have h2 := length_of_direction rest
  rw [‹direction _ = _›] at h2
  simp only [List.length_cons] at h2
  omega

theorem length_of_sortTerms {phrase : Phrase} {tokens rest : List Token} {terms : List SortTerm}
    (h : sortTerms phrase tokens = .ok (terms, rest)) : rest.length < tokens.length := by
  fun_induction sortTerms phrase tokens generalizing terms rest with
  | case1 => simp at h
  | case2 tokens property ts hp d hd =>
    cases h
    exact Nat.lt_of_le_of_lt (Nat.zero_le _) (length_of_path hp)
  | case3 tokens property ts hp d comma more hd hc ih =>
    obtain ⟨⟨_, r⟩, hr, he⟩ := map_eq_ok_iff.1 h
    cases he
    have h1 := ih hr
    have h2 := length_of_path hp
    have h3 := length_of_direction ts
    rw [hd] at h3
    simp only [List.length_cons] at h3 ⊢
    omega
  | case4 tokens property ts hp d comma more hd hc =>
    cases h
    have h2 := length_of_path hp
    have h3 := length_of_direction ts
    rw [hd] at h3
    exact Nat.lt_of_le_of_lt h3 h2

/-- An integer that fits a 64-bit word. -/
def size (phrase : Phrase) (tokens : List Token) : Reading Nat :=
  match expect [.integer] phrase tokens with
  | .error e => .error e
  | .ok (token, rest) =>
    match Numeral.word? token.text.toList with
    | some n => .ok (n, rest)
    | none => .error (unexpected .integerInRange phrase tokens)

theorem length_of_size {phrase : Phrase} {tokens rest : List Token} {n : Nat}
    (h : size phrase tokens = .ok (n, rest)) : rest.length < tokens.length := by
  unfold size at h
  split at h
  · simp at h
  · next he =>
    split at h
    · cases h
      simp [(expect_eq_ok_iff.1 he).2]
    · simp at h

/-- The arguments of a limit: a count, or an offset and a count that may be absent. -/
def limitArguments (phrase : Phrase) (tokens : List Token) : Reading (Nat × Option Nat) :=
  match size phrase tokens with
  | .error e => .error e
  | .ok (first, []) => .ok ((0, some first), [])
  | .ok (first, comma :: rest) =>
    if comma.kind = .comma then
      match rest with
      | [] => .error (unexpected (.oneOf [.integer, .nullKeyword]) phrase [])
      | token :: more =>
        if token.kind = .integer then
          (size phrase (token :: more)).map fun r => ((first, some r.1), r.2)
        else if token.kind = .nullKeyword then .ok ((first, none), more)
        else .error (unexpected (.oneOf [.integer, .nullKeyword]) phrase (token :: more))
    else .ok ((0, some first), comma :: rest)

theorem length_of_limitArguments {phrase : Phrase} {tokens rest : List Token}
    {r : Nat × Option Nat} (h : limitArguments phrase tokens = .ok (r, rest)) :
    rest.length < tokens.length := by
  unfold limitArguments at h
  split at h
  · simp at h
  · next hs =>
    cases h
    exact length_of_size hs
  · next hs =>
    have h1 := length_of_size hs
    simp only [List.length_cons] at h1
    split at h
    · split at h
      · simp at h
      · simp only [List.length_cons] at h1
        split at h
        · obtain ⟨⟨_, r⟩, hr, he⟩ := map_eq_ok_iff.1 h
          cases he
          have := length_of_size hr
          simp only [List.length_cons] at this ⊢
          omega
        · split at h
          · cases h
            omega
          · simp at h
    · cases h
      simpa using h1

/-- Whether a payload ends in front of a token of this kind, at this depth of parentheses. -/
def endsPayload (depth : Nat) : Kind → Bool
  | .pipe | .openCurly | .closeCurly => true
  | .comma => depth == 0
  | _ => false

/-- The depth of parentheses behind a token of this kind; a stray closing one does not count. -/
def depthAfter (depth : Nat) : Kind → Nat
  | .openParen => depth + 1
  | .closeParen => depth - 1
  | _ => depth

/-- The texts of the tokens of a payload. -/
def payload (depth : Nat) : List Token → List String × List Token
  | [] => ([], [])
  | token :: rest =>
    if endsPayload depth token.kind then ([], token :: rest)
    else
      let r := payload (depthAfter depth token.kind) rest
      (token.text :: r.1, r.2)

theorem length_of_payload (depth : Nat) (tokens : List Token) :
    (payload depth tokens).2.length ≤ tokens.length := by
  fun_induction payload depth tokens with
  | case1 => simp
  | case2 => simp
  | case3 depth token rest _ r ih =>
    simp only [List.length_cons]
    exact Nat.le_succ_of_le ih

/-- What a keyword of no known meaning says: the texts behind its colon, joined by blanks. -/
def genericPayload : List Token → Option String × List Token
  | colon :: rest =>
    if colon.kind = .colon then
      let r := payload 0 rest
      (some (" ".intercalate r.1), r.2)
    else (none, colon :: rest)
  | [] => (none, [])

theorem length_of_genericPayload (tokens : List Token) :
    (genericPayload tokens).2.length ≤ tokens.length := by
  unfold genericPayload
  split
  · split
    · exact Nat.le_succ_of_le (length_of_payload _ _)
    · simp
  · simp

/-- A modifier of the entity with this path, behind its `|`. -/
def modifier (path : String) (tokens : List Token) : Reading Modifier :=
  match expect [.identifier] (.modifierOf path) tokens with
  | .error e => .error e
  | .ok (keyword, rest) =>
    if keyword.text = "sort" then
      match expect [.colon] (.sortOf path) rest with
      | .error e => .error e
      | .ok (_, more) => (sortTerms (.sortOf path) more).map fun r => (.sort r.1, r.2)
    else if keyword.text = "limit" then
      match expect [.colon] (.limitOf path) rest with
      | .error e => .error e
      | .ok (_, more) =>
        (limitArguments (.limitOf path) more).map fun r => (.limit r.1.1 r.1.2, r.2)
    else if keyword.text = "randomize" then .ok (.randomize, rest)
    else
      let r := genericPayload rest
      .ok (.generic keyword.text r.1, r.2)

theorem length_of_modifier {path : String} {tokens rest : List Token} {m : Modifier}
    (h : modifier path tokens = .ok (m, rest)) : rest.length < tokens.length := by
  unfold modifier at h
  split at h
  · simp at h
  · next keyword ts he =>
    rw [(expect_eq_ok_iff.1 he).2]
    simp only [List.length_cons]
    split at h
    · split at h
      · simp at h
      · next hc =>
        obtain ⟨⟨_, r⟩, hr, he⟩ := map_eq_ok_iff.1 h
        cases he
        have := length_of_sortTerms hr
        rw [(expect_eq_ok_iff.1 hc).2]
        simp only [List.length_cons]
        omega
    · split at h
      · split at h
        · simp at h
        · next hc =>
          obtain ⟨⟨_, r⟩, hr, he⟩ := map_eq_ok_iff.1 h
          cases he
          have := length_of_limitArguments hr
          rw [(expect_eq_ok_iff.1 hc).2]
          simp only [List.length_cons]
          omega
      · split at h
        · cases h
          omega
        · cases h
          have := length_of_genericPayload ts
          omega

/-- All modifiers of the entity with this path. -/
def modifiers (path : String) (tokens : List Token) : Reading (List Modifier) :=
  match tokens with
  | [] => .ok ([], [])
  | pipe :: rest =>
    if pipe.kind = .pipe then
      match _h : modifier path rest with
      | .error e => .error e
      | .ok (m, more) => (modifiers path more).map fun r => (m :: r.1, r.2)
    else .ok ([], pipe :: rest)
termination_by tokens.length
decreasing_by
  have := length_of_modifier ‹modifier _ _ = _›
  simp only [List.length_cons]
  omega

theorem length_of_modifiers {path : String} {tokens rest : List Token} {ms : List Modifier}
    (h : modifiers path tokens = .ok (ms, rest)) : rest.length ≤ tokens.length := by
  fun_induction modifiers path tokens generalizing ms rest with
  | case1 => cases h; simp
  | case2 => simp at h
  | case3 pipe ts hp m more hm ih =>
    obtain ⟨⟨_, r⟩, hr, he⟩ := map_eq_ok_iff.1 h
    cases he
    have h1 := ih hr
    have h2 := length_of_modifier hm
    simp only [List.length_cons]
    omega
  | case4 => cases h; simp

/-! ### Entities -/

/-- The text of a token of one of these kinds behind a token of the kind `mark`, if that
token is there. -/
def marked (mark : Kind) (kinds : List Kind) (phrase : Phrase) (tokens : List Token) :
    Reading (Option String) :=
  match tokens with
  | [] => .ok (none, [])
  | token :: rest =>
    if token.kind = mark then (expect kinds phrase rest).map fun r => (some r.1.text, r.2)
    else .ok (none, token :: rest)

theorem length_of_marked {mark : Kind} {kinds : List Kind} {phrase : Phrase}
    {tokens rest : List Token} {text : Option String}
    (h : marked mark kinds phrase tokens = .ok (text, rest)) : rest.length ≤ tokens.length := by
  unfold marked at h
  split at h
  · cases h
    simp
  · split at h
    · obtain ⟨⟨_, r⟩, hr, he⟩ := map_eq_ok_iff.1 h
      cases he
      rw [(expect_eq_ok_iff.1 hr).2]
      simp only [List.length_cons]
      omega
    · cases h
      simp

/-- An entity without its sub-query: path, identifier, alias and modifiers. -/
def heading (tokens : List Token) : Reading Entity :=
  match path .entity tokens with
  | .error e => .error e
  | .ok (p, rest) =>
    match marked .sharp [.integer, .identifier, .string] (.entityAt p) rest with
    | .error e => .error e
    | .ok (identifier, rest) =>
      match marked .asKeyword [.identifier] (.entityAt p) rest with
      | .error e => .error e
      | .ok (aliasName, rest) =>
        (modifiers p rest).map fun r => (⟨aliasName.getD p, p, identifier, none, r.1⟩, r.2)

theorem length_of_heading {tokens rest : List Token} {e : Entity}
    (h : heading tokens = .ok (e, rest)) : rest.length < tokens.length := by
  unfold heading at h
  split at h
  · simp at h
  · next hp =>
    split at h
    · simp at h
    · next hi =>
      split at h
      · simp at h
      · next ha =>
        obtain ⟨⟨_, r⟩, hr, he⟩ := map_eq_ok_iff.1 h
        cases he
        have h1 := length_of_path hp
        have h2 := length_of_marked hi
        have h3 := length_of_marked ha
        have h4 := length_of_modifiers hr
        dsimp only
        omega

/-- An entity with its sub-query, which `subQuery` reads. -/
def entityWith (subQuery : List Token → Reading Query) (tokens : List Token) : Reading Entity :=
  match heading tokens with
  | .error e => .error e
  | .ok (bare, []) => .ok (bare, [])
  | .ok (bare, brace :: rest) =>
    if brace.kind = .openCurly then
      match (if rest = [] then .ok ([], []) else subQuery rest) with
      | .error e => .error e
      | .ok (children, behind) =>
        (expect [.closeCurly] (.subQueryOf bare.path) behind).map fun r =>
          ({ bare with children := some children }, r.2)
    else .ok (bare, brace :: rest)

/-- The place of the first token. -/
def place (tokens : List Token) : Nat := (tokens.head?.map Token.position).getD 0

/-- Entities separated by commas, behind the siblings that were read before. The number bounds
the entities that may be begun, side by side and inside each other; `entities_eq` says that no
bound above the number of tokens is ever met. -/
def entities : Nat → Query → List Token → Reading Query
  | 0, _, tokens => .error (unexpected (.oneOf [.identifier]) (some .entity) tokens)
  | bound + 1, siblings, tokens =>
    match entityWith (entities bound []) tokens with
    | .error e => .error e
    | .ok (next, rest) =>
      if next.aliasName ∈ siblings.aliases then
        .error (.duplicateAlias next.aliasName (place tokens))
      else
        match rest with
        | [] => .ok (siblings ++ [next], [])
        | comma :: more =>
          if comma.kind = .comma then entities bound (siblings ++ [next]) more
          else .ok (siblings ++ [next], comma :: more)

/-- Only texts shorter than the entity's own are read as its sub-query. -/
theorem entityWith_congr {f g : List Token → Reading Query} {tokens : List Token}
    (h : ∀ inner : List Token, inner.length < tokens.length → f inner = g inner) :
    entityWith f tokens = entityWith g tokens := by
  unfold entityWith
  split
  · rfl
  · rfl
  · next bare brace rest hh =>
    have := length_of_heading hh
    simp only [List.length_cons] at this
    rw [h rest (by omega)]

theorem length_of_entityWith {f : List Token → Reading Query} {tokens rest : List Token}
    {e : Entity}
    (hf : ∀ (inner behind : List Token) (q : Query), f inner = .ok (q, behind) →
      behind.length ≤ inner.length)
    (h : entityWith f tokens = .ok (e, rest)) : rest.length < tokens.length := by
  unfold entityWith at h
  split at h
  · simp at h
  · next hh =>
    cases h
    exact length_of_heading hh
  · next bare brace inner hh =>
    have h1 := length_of_heading hh
    simp only [List.length_cons] at h1
    split at h
    · split at h
      · simp at h
      · next children behind hq =>
        obtain ⟨⟨t, r⟩, hr, he⟩ := map_eq_ok_iff.1 h
        cases he
        have h2 : behind.length ≤ inner.length := by
          split at hq
          · cases hq
            exact Nat.zero_le _
          · exact hf _ _ _ hq
        have h3 := (expect_eq_ok_iff.1 hr).2
        simp only [h3, List.length_cons] at h2
        dsimp only
        omega
    · cases h
      simpa using h1

theorem length_of_entities {bound : Nat} {siblings query : Query} {tokens rest : List Token}
    (h : entities bound siblings tokens = .ok (query, rest)) : rest.length < tokens.length := by
  induction bound generalizing siblings query tokens rest with
  | zero => simp [entities] at h
  | succ bound ih =>
    unfold entities at h
    split at h
    · simp at h
    · next next ts he =>
      have h1 := length_of_entityWith (fun _ _ _ hi => Nat.le_of_lt (ih hi)) he
      split at h
      · simp at h
      · split at h
        · cases h
          exact Nat.lt_of_le_of_lt (Nat.zero_le _) h1
        · simp only [List.length_cons] at h1
          split at h
          · have := ih h
            omega
          · cases h
            simpa using h1

/-- Every bound above the number of tokens gives the same result. -/
theorem entities_eq {m n : Nat} {siblings : Query} {tokens : List Token}
    (hm : tokens.length < m) (hn : tokens.length < n) :
    entities m siblings tokens = entities n siblings tokens := by
  induction m generalizing n siblings tokens with
  | zero => omega
  | succ m ih =>
    obtain _ | n := n
    · omega
    · have hs : entityWith (entities m []) tokens = entityWith (entities n []) tokens :=
        entityWith_congr fun inner hi => ih (by omega) (by omega)
      unfold entities
      rw [hs]
      split
      · rfl
      · next next ts he =>
        split
        · rfl
        · split
          · rfl
          · have := length_of_entityWith (fun _ _ _ hi => Nat.le_of_lt (length_of_entities hi)) he
            simp only [List.length_cons] at this
            split
            · exact ih (by omega) (by omega)
            · rfl

/-- The entities at the head of the tokens. -/
def query (tokens : List Token) : Reading Query := entities (tokens.length + 1) [] tokens

end Parser

/-- The query that the tokens say, all of them. -/
def parseTokens (tokens : List Token) : Except ParseError Query :=
  if tokens = [] then .ok []
  else
    match Parser.query tokens with
    | .error e => .error e
    | .ok (query, []) => .ok query
    | .ok (_, token :: rest) => .error (Parser.unexpected .commaOrEnd none (token :: rest))

/-- The query that a text says. -/
def parse (text : String) : Except ParseError Query :=
  match scan text with
  | .error e => .error (.lexical e)
  | .ok tokens => parseTokens tokens

/-- The query that the tokens behind the lookahead say. -/
def Cursor.parse (cursor : Cursor) : Except ParseError Query := parseTokens cursor.upcoming

end NestedQuery
