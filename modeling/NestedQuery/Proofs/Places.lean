/-
# What the parser sees of places

The parser looks at kinds and texts of tokens, and at places only to tell
whether a point begins where the name before it ends. So tokens that stand at
other places but are joined by the same points say the same query
(`parseTokens_moved`), or they have the same error, at the place to which the
token at fault was moved. This is shown for each phrase as for two runs of
the parser: they return the same and leave moved tokens, or fail alike.

Key definitions: `Moved`, `ParseError.Moved`, `Parser.Alike`,
`ParseError.move`, `KeepsJoined`.
Key theorems: `Parser.alike_path`, `Parser.alike_modifier`,
`Parser.alike_heading`, `Parser.alike_entities`, `parseTokens_moved`,
`parseTokens_map`.
-/
import Mathlib.Data.List.Chain
import NestedQuery.Proofs.Layout
import NestedQuery.Proofs.ViablePrefix.Entities

namespace NestedQuery

open Grammar

/-- The same tokens at other places, related to the old ones by `R`. The same points are joined
to the names before them. -/
inductive Moved (R : Nat → Nat → Prop) : List Token → List Token → Prop
  | nil : Moved R [] []
  | cons {token other : Token} {tokens others : List Token} (hk : other.kind = token.kind)
      (ht : other.text = token.text) (hp : R token.position other.position)
      (hj : token.kind ∈ Parser.nameKinds → ∀ dot ∈ tokens.head?, ∀ dot' ∈ others.head?,
        (Joins token dot ↔ Joins other dot'))
      (h : Moved R tokens others) : Moved R (token :: tokens) (other :: others)

/-- The same error at another place. -/
inductive ParseError.Moved (R : Nat → Nat → Prop) : ParseError → ParseError → Prop
  | token {expected : Expectation} {text : String} {phrase : Option Phrase} {p q : Nat}
      (h : R p q) :
      ParseError.Moved R (.unexpected ⟨expected, some ⟨text, p⟩, phrase⟩)
        (.unexpected ⟨expected, some ⟨text, q⟩, phrase⟩)
  | atEnd {expected : Expectation} {phrase : Option Phrase} :
      ParseError.Moved R (.unexpected ⟨expected, none, phrase⟩)
        (.unexpected ⟨expected, none, phrase⟩)
  | duplicate {aliasName : String} {p q : Nat} (h : R p q) :
      ParseError.Moved R (.duplicateAlias aliasName p) (.duplicateAlias aliasName q)

namespace Parser

/-- Two runs read values that are related and leave moved tokens, or they fail alike. -/
inductive Alike (R : Nat → Nat → Prop) {α β : Type} (S : α → β → Prop) :
    Reading α → Reading β → Prop
  | read {a : α} {b : β} {ts us : List Token} (hs : S a b) (h : Moved R ts us) :
      Alike R S (.ok (a, ts)) (.ok (b, us))
  | error {e e' : ParseError} (h : e.Moved R e') : Alike R S (.error e) (.error e')

variable {R : Nat → Nat → Prop} {ts us : List Token} {phrase : Phrase}

namespace Alike

variable {α β γ : Type} {S : α → β → Prop}

theorem unexpected (expected : Expectation) (phrase : Option Phrase) (h : Moved R ts us) :
    Alike R S (.error (Parser.unexpected expected phrase ts))
      (.error (Parser.unexpected expected phrase us)) := by
  cases h with
  | nil => exact .error .atEnd
  | cons hk ht hp hj h =>
    simp only [Parser.unexpected, List.head?_cons, Option.map_some, ht]
    exact .error (.token hp)

/-- The two outcomes, one beside the other. -/
theorem outcomes {x : Reading α} {y : Reading β} (h : Alike R S x y) :
    (∃ e e', x = .error e ∧ y = .error e' ∧ e.Moved R e') ∨
      ∃ a b ts us, x = .ok (a, ts) ∧ y = .ok (b, us) ∧ S a b ∧ Moved R ts us := by
  cases h with
  | read hs h => exact .inr ⟨_, _, _, _, rfl, rfl, hs, h⟩
  | error h => exact .inl ⟨_, _, rfl, rfl, h⟩

theorem of_error {e : ParseError} {y : Reading β} (h : Alike R S (.error e) y) :
    ∃ e', y = .error e' ∧ e.Moved R e' := by
  cases h with
  | error h => exact ⟨_, rfl, h⟩

theorem of_ok {a : α} {ts : List Token} {y : Reading α} (h : Alike R Eq (.ok (a, ts)) y) :
    ∃ us, y = .ok (a, us) ∧ Moved R ts us := by
  cases h with
  | read hs h =>
    subst hs
    exact ⟨_, rfl, h⟩

/-- What is alike is alike once its difference is forgotten. -/
theorem forget {S : α → α → Prop} {x y : Reading α} (k : α → γ) (hk : ∀ {a b}, S a b → k a = k b)
    (h : Alike R S x y) :
    Alike R Eq (x.map fun r => (k r.1, r.2)) (y.map fun r => (k r.1, r.2)) := by
  cases h with
  | read hs h => exact .read (hk hs) h
  | error h => exact .error h

theorem map {x y : Reading α} (k : α → γ) (h : Alike R Eq x y) :
    Alike R Eq (x.map fun r => (k r.1, r.2)) (y.map fun r => (k r.1, r.2)) :=
  h.forget k (congrArg k)

end Alike

/-! ### Single tokens and paths -/

/-- Tokens that differ in their place only. -/
def SameToken (token other : Token) : Prop := other.kind = token.kind ∧ other.text = token.text

theorem alike_expect (kinds : List Kind) (phrase : Phrase) (h : Moved R ts us) :
    Alike R SameToken (expect kinds phrase ts) (expect kinds phrase us) := by
  have herror := Alike.unexpected (S := SameToken) (.oneOf kinds) phrase h
  cases h with
  | nil => exact herror
  | @cons token other ts us hk ht hp hj h =>
    by_cases hkind : token.kind ∈ kinds
    · simp only [expect, hk, hkind, if_true]
      exact .read ⟨hk, ht⟩ h
    · simp only [expect, hk, hkind, if_false]
      exact herror

/-- The names behind two names are read alike if the first point is joined to both or to none. -/
theorem alike_moreNames {stop stop' : Nat} (h : Moved R ts us)
    (hj : ∀ dot ∈ ts.head?, ∀ dot' ∈ us.head?,
      (dot.kind = .dot ∧ dot.position = stop ↔ dot'.kind = .dot ∧ dot'.position = stop')) :
    Alike R Eq (moreNames phrase stop ts) (moreNames phrase stop' us) := by
  fun_induction moreNames phrase stop ts generalizing us stop' with
  | case1 stop =>
    cases h
    exact .read rfl .nil
  | case2 stop dot hd =>
    obtain _ | ⟨_, _, _, _, hnil⟩ := h
    cases hnil
    have hd' := (hj _ rfl _ rfl).1 hd
    simp only [moreNames, hd', and_self, if_true]
    exact .unexpected _ _ .nil
  | case3 stop dot hd segment tokens hs ih =>
    obtain _ | ⟨_, _, _, _, hsegment⟩ := h
    obtain _ | ⟨hk, ht, _, hjoins, h⟩ := hsegment
    have hd' := (hj _ rfl _ rfl).1 hd
    simp only [moreNames, hd', and_self, if_true, hk, hs, ht]
    exact (ih h (hjoins hs)).map (segment.text :: ·)
  | case4 stop dot hd segment tokens hs =>
    obtain _ | ⟨_, _, _, _, hsegment⟩ := h
    have herror := Alike.unexpected (S := Eq) (α := List String) (.oneOf [.identifier])
      (some phrase) hsegment
    obtain _ | ⟨hk, _, _, _, _⟩ := hsegment
    have hd' := (hj _ rfl _ rfl).1 hd
    simp only [moreNames, hd', and_self, if_true, hk, hs, if_false]
    exact herror
  | case5 stop dot tokens hd =>
    have hread := Alike.read (rfl : ([] : List String) = []) h
    obtain _ | ⟨_, _, _, _, _⟩ := h
    have hd' := mt (hj _ rfl _ rfl).2 hd
    rw [moreNames.eq_def]
    simp only [hd', if_false]
    exact hread

theorem alike_path (phrase : Phrase) (h : Moved R ts us) :
    Alike R Eq (path phrase ts) (path phrase us) := by
  have herror := Alike.unexpected (S := Eq) (α := String) (.oneOf [.identifier]) (some phrase) h
  cases h with
  | nil => exact herror
  | @cons token other ts us hk ht hp hj h =>
    by_cases hname : token.kind ∈ nameKinds
    · simp only [path, name, hk, hname, if_true, ht]
      exact (alike_moreNames h (hj hname)).map (fun names => ".".intercalate (token.text :: names))
    · simp only [path, name, hk, hname, if_false]
      exact herror

/-! ### Modifiers -/

theorem moved_direction (h : Moved R ts us) :
    (direction us).1 = (direction ts).1 ∧ Moved R (direction ts).2 (direction us).2 := by
  cases h with
  | nil => exact ⟨rfl, .nil⟩
  | @cons token other ts us hk ht hp hj h =>
    by_cases hword : token.kind = .identifier
    · simp only [direction, hk, hword, if_true, ht, true_and]
      exact h
    · simp only [direction, hk, hword, if_false, true_and]
      exact .cons hk ht hp hj h

theorem alike_sortTerms (phrase : Phrase) (h : Moved R ts us) :
    Alike R Eq (sortTerms phrase ts) (sortTerms phrase us) := by
  -- the second run reads the same term
  have term : ∀ {ts us more rest : List Token} {property : String} {d : SortDirection},
      Moved R ts us → path phrase ts = .ok (property, more) → direction more = (d, rest) →
      ∃ more' rest', path phrase us = .ok (property, more') ∧ direction more' = (d, rest') ∧
        Moved R rest rest' := by
    intro ts us more rest property d h hp hd
    have hpath := alike_path phrase h
    rw [hp] at hpath
    obtain ⟨more', hp', hmore⟩ := hpath.of_ok
    have hdirection := moved_direction hmore
    rw [hd] at hdirection
    exact ⟨more', (direction more').2, hp', Prod.ext hdirection.1 rfl, hdirection.2⟩
  fun_induction sortTerms phrase ts generalizing us with
  | case1 tokens e hp =>
    have hpath := alike_path phrase h
    rw [hp] at hpath
    obtain ⟨e', hp', he⟩ := hpath.of_error
    rw [sortTerms_error hp']
    exact .error he
  | case2 tokens property more hp d hd =>
    obtain ⟨more', rest', hp', hd', hrest⟩ := term h hp hd
    cases hrest
    rw [sortTerms_last hp' hd' (without_nil _)]
    exact .read rfl .nil
  | case3 tokens property more hp d comma rest hd hc ih =>
    obtain ⟨more', rest', hp', hd', hrest⟩ := term h hp hd
    obtain _ | ⟨hk, _, _, _, hrest⟩ := hrest
    rw [sortTerms_more hp' hd' (hk.trans hc)]
    exact (ih hrest).map (⟨property, d⟩ :: ·)
  | case4 tokens property more hp d comma rest hd hc =>
    obtain ⟨more', rest', hp', hd', hrest⟩ := term h hp hd
    have hread := Alike.read (rfl : [(⟨property, d⟩ : SortTerm)] = _) hrest
    obtain _ | ⟨hk, _, _, _, _⟩ := hrest
    rw [sortTerms_last hp' hd' (without_cons.2 (hk ▸ hc))]
    exact hread

theorem alike_size (phrase : Phrase) (h : Moved R ts us) :
    Alike R Eq (size phrase ts) (size phrase us) := by
  obtain ⟨e, e', hx, hy, he⟩ | ⟨token, other, ts', us', hx, hy, hsame, h'⟩ :=
    (alike_expect [.integer] phrase h).outcomes
  · simp only [size, hx, hy]
    exact .error he
  · simp only [size, hx, hy, hsame.2]
    split
    · exact .read rfl h'
    · exact .unexpected _ _ h

theorem alike_limitArguments (phrase : Phrase) (h : Moved R ts us) :
    Alike R Eq (limitArguments phrase ts) (limitArguments phrase us) := by
  obtain ⟨e, e', hx, hy, he⟩ | ⟨first, _, behind, behind', hx, hy, rfl, hbehind⟩ :=
    (alike_size phrase h).outcomes
  · simp only [limitArguments, hx, hy]
    exact .error he
  cases hbehind with
  | nil =>
    simp only [limitArguments, hx, hy]
    exact .read rfl .nil
  | @cons comma comma' rest rest' hk ht hp hj hrest =>
    simp only [limitArguments, hx, hy, hk]
    by_cases hc : comma.kind = .comma
    · simp only [hc, if_true]
      have herror := Alike.unexpected (S := Eq) (α := Nat × Option Nat)
        (.oneOf [.integer, .nullKeyword]) (some phrase) hrest
      have hsize := alike_size phrase hrest
      cases hrest with
      | nil => exact herror
      | @cons second second' more more' hk' ht' hp' hj' hmore =>
        simp only [hk']
        split
        · exact hsize.map (fun n => (first, some n))
        · split
          · exact .read rfl hmore
          · exact herror
    · simp only [hc, if_false]
      exact .read rfl (.cons hk ht hp hj hrest)

theorem moved_payload (depth : Nat) (h : Moved R ts us) :
    (payload depth us).1 = (payload depth ts).1 ∧
      Moved R (payload depth ts).2 (payload depth us).2 := by
  induction h generalizing depth with
  | nil => exact ⟨rfl, .nil⟩
  | @cons token other ts us hk ht hp hj h ih =>
    simp only [payload, hk]
    split
    · exact ⟨rfl, .cons hk ht hp hj h⟩
    · obtain ⟨htexts, hbehind⟩ := ih (depthAfter depth token.kind)
      exact ⟨by rw [ht, htexts], hbehind⟩

theorem moved_genericPayload (h : Moved R ts us) :
    (genericPayload us).1 = (genericPayload ts).1 ∧
      Moved R (genericPayload ts).2 (genericPayload us).2 := by
  cases h with
  | nil => exact ⟨rfl, .nil⟩
  | @cons token other ts us hk ht hp hj h =>
    simp only [genericPayload, hk]
    split
    · obtain ⟨htexts, hbehind⟩ := moved_payload 0 h
      exact ⟨by rw [htexts], hbehind⟩
    · exact ⟨rfl, .cons hk ht hp hj h⟩

theorem alike_modifier (path : String) (h : Moved R ts us) :
    Alike R Eq (modifier path ts) (modifier path us) := by
  obtain ⟨e, e', hx, hy, he⟩ | ⟨word, word', rest, rest', hx, hy, hsame, hrest⟩ :=
    (alike_expect [.identifier] (.modifierOf path) h).outcomes
  · simp only [modifier, hx, hy]
    exact .error he
  simp only [modifier, hx, hy, hsame.2]
  split
  · obtain ⟨e, e', hx, hy, he⟩ | ⟨_, _, more, more', hx, hy, -, hmore⟩ :=
      (alike_expect [.colon] (.sortOf path) hrest).outcomes
    · simp only [hx, hy]
      exact .error he
    · simp only [hx, hy]
      exact (alike_sortTerms _ hmore).map Modifier.sort
  · split
    · obtain ⟨e, e', hx, hy, he⟩ | ⟨_, _, more, more', hx, hy, -, hmore⟩ :=
        (alike_expect [.colon] (.limitOf path) hrest).outcomes
      · simp only [hx, hy]
        exact .error he
      · simp only [hx, hy]
        exact (alike_limitArguments _ hmore).map fun r => Modifier.limit r.1 r.2
    · split
      · exact .read rfl hrest
      · obtain ⟨htext, hbehind⟩ := moved_genericPayload hrest
        rw [htext]
        exact .read rfl hbehind

theorem alike_modifiers (path : String) (h : Moved R ts us) :
    Alike R Eq (modifiers path ts) (modifiers path us) := by
  fun_induction modifiers path ts generalizing us with
  | case1 =>
    cases h
    rw [modifiers]
    exact .read rfl .nil
  | case2 pipe tokens hp e hm =>
    obtain _ | ⟨hk, _, _, _, h⟩ := h
    have hmodifier := alike_modifier path h
    rw [hm] at hmodifier
    obtain ⟨e', hm', he⟩ := hmodifier.of_error
    rw [modifiers_error (hk.trans hp) hm']
    exact .error he
  | case3 pipe tokens hp m more hm ih =>
    obtain _ | ⟨hk, _, _, _, h⟩ := h
    have hmodifier := alike_modifier path h
    rw [hm] at hmodifier
    obtain ⟨more', hm', hmore⟩ := hmodifier.of_ok
    rw [modifiers_more (hk.trans hp) hm']
    exact (ih hmore).map (m :: ·)
  | case4 pipe tokens hp =>
    have hread := Alike.read (rfl : ([] : List Modifier) = []) h
    obtain _ | ⟨hk, _, _, _, _⟩ := h
    rw [modifiers, if_neg (hk ▸ hp)]
    exact hread

/-! ### Entities -/

theorem alike_marked (mark : Kind) (kinds : List Kind) (phrase : Phrase) (h : Moved R ts us) :
    Alike R Eq (marked mark kinds phrase ts) (marked mark kinds phrase us) := by
  cases h with
  | nil => exact .read rfl .nil
  | @cons token other ts us hk ht hp hj h =>
    simp only [marked, hk]
    split
    · exact (alike_expect kinds phrase h).forget (fun t => some t.text)
        fun hsame => congrArg some hsame.2.symm
    · exact .read rfl (.cons hk ht hp hj h)

theorem alike_heading (h : Moved R ts us) : Alike R Eq (heading ts) (heading us) := by
  obtain ⟨e, e', hx, hy, he⟩ | ⟨p, _, ts1, us1, hx, hy, rfl, h1⟩ := (alike_path .entity h).outcomes
  · simp only [heading, hx, hy]
    exact .error he
  obtain ⟨e, e', hx', hy', he⟩ | ⟨identifier, _, ts2, us2, hx', hy', rfl, h2⟩ :=
    (alike_marked .sharp [.integer, .identifier, .string] (.entityAt p) h1).outcomes
  · simp only [heading, hx, hy, hx', hy']
    exact .error he
  obtain ⟨e, e', hx'', hy'', he⟩ | ⟨aliasName, _, ts3, us3, hx'', hy'', rfl, h3⟩ :=
    (alike_marked .asKeyword [.identifier] (.entityAt p) h2).outcomes
  · simp only [heading, hx, hy, hx', hy', hx'', hy'']
    exact .error he
  simp only [heading, hx, hy, hx', hy', hx'', hy'']
  exact (alike_modifiers p h3).map
    fun ms => (⟨aliasName.getD p, p, identifier, none, ms⟩ : Entity)

theorem alike_entityWith {f g : List Token → Reading Query}
    (hfg : ∀ {ts us}, Moved R ts us → Alike R Eq (f ts) (g us)) (h : Moved R ts us) :
    Alike R Eq (entityWith f ts) (entityWith g us) := by
  obtain ⟨e, e', hx, hy, he⟩ | ⟨bare, _, behind, behind', hx, hy, rfl, hbehind⟩ :=
    (alike_heading h).outcomes
  · simp only [entityWith, hx, hy]
    exact .error he
  cases hbehind with
  | nil =>
    simp only [entityWith, hx, hy]
    exact .read rfl .nil
  | @cons brace brace' inner inner' hk ht hp hj hinner =>
    simp only [entityWith, hx, hy, hk]
    split
    · have hsub : Alike R Eq (if inner = [] then .ok ([], []) else f inner)
          (if inner' = [] then .ok ([], []) else g inner') := by
        have hsub := hfg hinner
        cases hinner with
        | nil => exact .read rfl .nil
        | cons => exact hsub
      obtain ⟨e, e', hx, hy, he⟩ | ⟨children, _, rest, rest', hx, hy, rfl, hrest⟩ := hsub.outcomes
      · simp only [hx, hy]
        exact .error he
      · simp only [hx, hy]
        exact (alike_expect _ _ hrest).forget
          (fun _ => { bare with children := some children }) fun _ => rfl
    · exact .read rfl (.cons hk ht hp hj hinner)

theorem alike_entities (bound : Nat) (siblings : Query) (h : Moved R ts us) :
    Alike R Eq (entities bound siblings ts) (entities bound siblings us) := by
  induction bound generalizing siblings ts us with
  | zero => exact .unexpected _ _ h
  | succ bound ih =>
    obtain ⟨e, e', hx, hy, he⟩ | ⟨next, _, behind, behind', hx, hy, rfl, hbehind⟩ :=
      (alike_entityWith (ih []) h).outcomes
    · simp only [entities, hx, hy]
      exact .error he
    simp only [entities, hx, hy]
    split
    · cases h with
      | nil => cases hx
      | cons hk ht hp hj h => exact .error (.duplicate hp)
    · cases hbehind with
      | nil => exact .read rfl .nil
      | @cons comma comma' more more' hk ht hp hj hmore =>
        simp only [hk]
        split
        · exact ih _ hmore
        · exact .read rfl (.cons hk ht hp hj hmore)

end Parser

theorem Moved.length_eq {R : Nat → Nat → Prop} {ts us : List Token} (h : Moved R ts us) :
    us.length = ts.length := by
  induction h with
  | nil => rfl
  | cons hk ht hp hj h ih => rw [List.length_cons, List.length_cons, ih]

/-- Moved tokens say the same query, or have the same error at the place that was moved. -/
theorem parseTokens_moved {R : Nat → Nat → Prop} {ts us : List Token} (h : Moved R ts us) :
    (∃ query, parseTokens ts = .ok query ∧ parseTokens us = .ok query) ∨
      ∃ e e', parseTokens ts = .error e ∧ parseTokens us = .error e' ∧ e.Moved R e' := by
  have hquery : Parser.Alike R Eq (Parser.query ts) (Parser.query us) := by
    unfold Parser.query
    rw [h.length_eq]
    exact Parser.alike_entities _ _ h
  cases h with
  | nil => exact .inl ⟨[], rfl, rfl⟩
  | @cons token other ts us hk ht hp hj h =>
    rw [parseTokens_eq (List.cons_ne_nil _ _), parseTokens_eq (List.cons_ne_nil _ _)]
    obtain ⟨e, e', hx, hy, he⟩ | ⟨query, _, rest, rest', hx, hy, rfl, hrest⟩ := hquery.outcomes
    · simp only [hx, hy]
      exact .inr ⟨e, e', rfl, rfl, he⟩
    · simp only [hx, hy]
      cases hrest with
      | nil => exact .inl ⟨query, rfl, rfl⟩
      | cons hk ht hp hj hrest => 
        simp only [Parser.unexpected, List.head?_cons, Option.map_some, ht]
        exact .inr ⟨_, _, rfl, rfl, .token hp⟩

/-! ### Moving all tokens -/

/-- The same error with its token at another place. An error of the scanner is about none. -/
def ParseError.move (f : Nat → Nat) : ParseError → ParseError
  | .lexical e => .lexical e
  | .unexpected e =>
    .unexpected { e with found := e.found.map fun t => { t with position := f t.position } }
  | .duplicateAlias aliasName p => .duplicateAlias aliasName (f p)

/-- The new places keep each point joined to the name before it, or apart from it. -/
def KeepsJoined (f : Nat → Nat) (tokens : List Token) : Prop :=
  tokens.IsChain fun name dot =>
    name.kind ∈ Parser.nameKinds → (Joins name dot ↔ Joins (name.move f) (dot.move f))

theorem moved_map {f : Nat → Nat} {tokens : List Token} (h : KeepsJoined f tokens) :
    Moved (fun p q => q = f p) tokens (tokens.map (Token.move f)) := by
  induction tokens with
  | nil => exact .nil
  | cons token tokens ih =>
    obtain ⟨hjoins, htokens⟩ := List.isChain_cons.1 h
    refine .cons rfl rfl rfl (fun hname dot hdot dot' hdot' => ?_) (ih htokens)
    rw [List.head?_map, Option.mem_def.1 hdot] at hdot'
    cases hdot'
    exact hjoins dot hdot hname

/-- **Places matter for points only.** Tokens that are moved say the same query or have the same
error, moved with them. -/
theorem parseTokens_map {f : Nat → Nat} {tokens : List Token} (h : KeepsJoined f tokens) :
    parseTokens (tokens.map (Token.move f)) =
      (parseTokens tokens).mapError (ParseError.move f) := by
  obtain ⟨query, hx, hy⟩ | ⟨e, e', hx, hy, he⟩ := parseTokens_moved (moved_map h)
  · rw [hx, hy]
    rfl
  · rw [hx, hy]
    cases he with
    | token hp => rw [hp]; rfl
    | atEnd => rfl
    | duplicate hp => rw [hp]; rfl

/-- Moving all tokens alike keeps them joined. -/
theorem keepsJoined_add (n : Nat) (tokens : List Token) : KeepsJoined (n + ·) tokens := by
  refine List.Pairwise.isChain (List.pairwise_of_forall fun name dot _ => ?_)
  simp only [Joins, Token.move, Token.stop, Nat.add_assoc, Nat.add_left_cancel_iff]

end NestedQuery
