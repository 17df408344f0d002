/-
# The outline of a query determines it

Sorts, limits and modifiers without a meaning share one form in an outline,
an object with the keyword as its only key, and the direction of a sort term
is a word whatever it means. An outline can be read back nevertheless, since
no modifier of a parsed query that is told by its keyword has the keyword of
another one, and no direction of its own is the word of one that has a
meaning. Reading is done layer by layer, each layer being undone by its own
lemma, so the outlines of two parsed queries are equal only if the queries are.

Key definitions: `Modifier.ofOutline?`, `Entity.ofOutline?`,
`Query.ofOutline?`.
Key theorems: `Modifier.ofOutline?_outline`, `Query.ofOutline?_outline`,
`outline_eq_outline_iff`.
-/
import Mathlib.Tactic
import NestedQuery.Proofs.Render.RoundTrip
import NestedQuery.Query.Outline

namespace NestedQuery

/-! ### Reading an outline -/

/-- A sort term; its word says the direction. -/
def SortTerm.ofOutline? : Json → Option SortTerm
  | .array [.string property, .string word] => some ⟨property, .ofWord word⟩
  | _ => none

/-- What an array describes, item by item. -/
def itemsOfOutline? {α : Type} (read? : Json → Option α) : Json → Option (List α)
  | .array items => items.mapM read?
  | _ => none

/-- A number that may be left out. -/
def countOfOutline? : Json → Option (Option Nat)
  | .integer n => some (some n.toNat)
  | .null => some none
  | _ => none

/-- Text that may be left out. -/
def textOfOutline? : Json → Option (Option String)
  | .string text => some (some text)
  | .null => some none
  | _ => none

/-- The two arguments of a limit. -/
def limitOfOutline? : Json → Option Modifier
  | .object [(_, .integer offset), (_, count)] =>
    (countOfOutline? count).map (.limit offset.toNat)
  | _ => none

/-- A modifier; the keyword of an object says of which kind it is. -/
def Modifier.ofOutline? : Json → Option Modifier
  | .string _ => some .randomize
  | .object [(keyword, json)] =>
    if keyword = "sort" then (itemsOfOutline? SortTerm.ofOutline? json).map .sort
    else if keyword = "limit" then limitOfOutline? json
    else (textOfOutline? json).map (.generic keyword)
  | _ => none

/-- The entity of this alias apart from its sub-query. -/
def headingOfOutline? (aliasName : String) (members : Entries Json) : Option Entity :=
  match members.get? "path" with
  | some (.string path) =>
    let identifier := (members.get? "identifier").elim (some none) textOfOutline?
    let modifiers := (members.get? "modifiers").elim (some []) (itemsOfOutline? Modifier.ofOutline?)
    identifier.bind fun identifier =>
      modifiers.map fun modifiers => { aliasName, path, identifier, modifiers }
  | _ => none

mutual

/-- A query by its outline. -/
def Query.ofOutline? : Json → Option Query
  | .object members => Query.ofOutlines? members
  | _ => none

/-- Entities by what describes each of them. -/
def Query.ofOutlines? : List (String × Json) → Option Query
  | [] => some []
  | (aliasName, .object members) :: others =>
    (headingOfOutline? aliasName members).bind fun entity =>
      (childrenOfOutline? members).bind fun children =>
        (Query.ofOutlines? others).map ({ entity with children } :: ·)
  | _ => none

/-- The sub-query among the members that describe an entity, if there is one. -/
def childrenOfOutline? : List (String × Json) → Option (Option Query)
  | [] => some none
  | (key, json) :: members =>
    if key = "children" then (Query.ofOutline? json).map some else childrenOfOutline? members

end

/-! ### Modifiers -/

theorem itemsOfOutline?_map {α : Type} {read? : Json → Option α} {outline : α → Json} {xs : List α}
    (h : ∀ x ∈ xs, read? (outline x) = some x) :
    itemsOfOutline? read? (.array (xs.map outline)) = some xs := by
  show (xs.map outline).mapM read? = some xs
  induction xs with
  | nil => rfl
  | cons x xs ih =>
    obtain ⟨hx, hxs⟩ := List.forall_mem_cons.1 h
    rw [List.map_cons, List.mapM_cons, hx, ih hxs]
    rfl

theorem SortDirection.ofWord_word {direction : SortDirection} (h : direction.WellFormed) :
    ofWord direction.word = direction := by
  cases direction with
  | ascending | descending => rfl
  | custom word =>
    obtain ⟨-, hasc, hdesc⟩ := h
    rw [SortDirection.word, ofWord, if_neg hasc, if_neg hdesc]

theorem SortTerm.ofOutline?_outline {term : SortTerm} (h : term.WellFormed) :
    ofOutline? term.outline = some term := by
  rw [outline, ofOutline?, SortDirection.ofWord_word h.2]

theorem textOfOutline?_ofText? (text : Option String) :
    textOfOutline? (.ofText? text) = some text := by
  cases text <;> rfl

/-- The keyword tells the kinds of modifiers apart. -/
theorem Modifier.ofOutline?_outline {m : Modifier} (h : m.WellFormed) :
    ofOutline? m.outline = some m := by
  cases m with
  | sort terms =>
    have hterms : itemsOfOutline? SortTerm.ofOutline? (.array (terms.map SortTerm.outline)) =
        some terms := itemsOfOutline?_map fun term ht => SortTerm.ofOutline?_outline (h.2 term ht)
    rw [outline, ofOutline?, if_pos rfl, hterms]
    rfl
  | limit offset count =>
    cases count <;>
      · rw [outline, ofOutline?, if_neg (by decide), if_pos rfl]
        rfl
  | randomize => rfl
  | generic keyword payload =>
    have hsort : keyword ≠ "sort" := fun he => h.2 (he ▸ by decide)
    have hlimit : keyword ≠ "limit" := fun he => h.2 (he ▸ by decide)
    rw [outline, ofOutline?, if_neg hsort, if_neg hlimit, textOfOutline?_ofText?]
    rfl

/-! ### Entities -/

section Heading

variable {aliasName path : String} {identifier : Option String} {modifiers : List Modifier}
  {rest : Entries Json}

/-- What describes an entity is read by its keys, whatever follows under other keys. -/
theorem headingOfOutline?_append (h : ∀ m ∈ modifiers, m.WellFormed)
    (hi : rest.get? "identifier" = none) (hm : rest.get? "modifiers" = none) :
    headingOfOutline? aliasName (headingOutline path identifier modifiers ++ rest) =
      some ⟨aliasName, path, identifier, none, modifiers⟩ := by
  have hmodifiers : itemsOfOutline? Modifier.ofOutline? (.array (modifiers.map Modifier.outline)) =
      some modifiers := itemsOfOutline?_map fun m hmem => Modifier.ofOutline?_outline (h m hmem)
  cases identifier <;> cases modifiers <;>
    simp_all [headingOfOutline?, headingOutline, Entries.get?, textOfOutline?]

theorem childrenOfOutline?_append :
    childrenOfOutline? (headingOutline path identifier modifiers ++ rest) =
      childrenOfOutline? rest := by
  cases identifier <;> cases modifiers <;> simp [headingOutline, childrenOfOutline?]

end Heading

mutual

/-- What describes an entity gives back the entity, its sub-query apart from the rest. -/
theorem Entity.ofOutline?_outline : ∀ entity : Entity,
    (∀ m ∈ entity.modifiers, m.WellFormed) →
    (∀ children ∈ entity.children, ∀ e ∈ Query.preorder children, ∀ m ∈ e.modifiers,
      m.WellFormed) →
    headingOfOutline? entity.aliasName entity.outline = some { entity with children := none } ∧
      childrenOfOutline? entity.outline = some entity.children
  | ⟨aliasName, path, identifier, none, modifiers⟩, h, _ => by
    have houtline : Entity.outline ⟨aliasName, path, identifier, none, modifiers⟩ =
        headingOutline path identifier modifiers ++ [] := (List.append_nil _).symm
    rw [houtline]
    exact ⟨headingOfOutline?_append h rfl rfl, childrenOfOutline?_append⟩
  | ⟨aliasName, path, identifier, some children, modifiers⟩, h, hc => by
    have hquery := Query.ofOutlines?_outlines children (hc children rfl)
    refine ⟨headingOfOutline?_append h rfl rfl, ?_⟩
    rw [Entity.outline, childrenOfOutline?_append, childrenOfOutline?, if_pos rfl,
      Query.ofOutline?, hquery]
    rfl

/-- What describes the entities of a query gives back the query. -/
theorem Query.ofOutlines?_outlines : ∀ query : List Entity,
    (∀ e ∈ Query.preorder query, ∀ m ∈ e.modifiers, m.WellFormed) →
    Query.ofOutlines? (Query.outlines query) = some query
  | [], _ => rfl
  | ⟨aliasName, path, identifier, children, modifiers⟩ :: query, h => by
    obtain ⟨⟨hentity, hchildren⟩, hquery⟩ := Query.forall_preorder_cons.1 h
    obtain ⟨hheading, hbelow⟩ := Entity.ofOutline?_outline
      ⟨aliasName, path, identifier, children, modifiers⟩ hentity hchildren
    rw [Query.outlines, Query.ofOutlines?, hheading, hbelow,
      Query.ofOutlines?_outlines query hquery]
    rfl

end

/-! ### Queries -/

/-- The outline of a query that can be written gives back the query. -/
theorem Query.ofOutline?_outline {query : Query} (h : query.WellFormed) :
    Query.ofOutline? query.outline = some query :=
  Query.ofOutlines?_outlines query fun e he => ((h.2 e he).1).2.2

/-- **The outline of a query determines it.** The outlines of two parsed queries are equal, order
included, exactly if the queries are; and a parsed query can be read back from its outline: the
aliases, paths and identifiers, the modifiers with their kinds, directions and payloads, and the
sub-queries, in order at every level. -/
theorem outline_eq_outline_iff {text text' : String} {query query' : Query}
    (h : parse text = .ok query) (h' : parse text' = .ok query') :
    (query.outline = query'.outline ↔ query = query') ∧
      Query.ofOutline? query.outline = some query := by
  have hread := Query.ofOutline?_outline (wellFormed_of_parse h)
  have hread' := Query.ofOutline?_outline (wellFormed_of_parse h')
  refine ⟨⟨fun heq => ?_, fun heq => heq ▸ rfl⟩, hread⟩
  rw [heq, hread'] at hread
  exact (Option.some.inj hread).symm

/-- A limit and a modifier without a meaning have outlines of one form, which their keywords tell
apart. -/
theorem outline_eq_outline_iff_keywords :
    let limited : Entity := ⟨"x", "a", some "7", none, [.limit 0 (some 1)]⟩
    let marked : Entity := ⟨"x", "a", some "7", none, [.generic "limits" (some "1")]⟩
    let other : Entity := ⟨"b", "b", none, some [⟨"c", "c", none, none, []⟩], [.randomize]⟩
    parse "b|randomize\x7bc\x7d,a#7 as x|limit:1" = .ok [other, limited] ∧
      parse "b|randomize\x7bc\x7d,a#7 as x|limits:1" = .ok [other, marked] ∧
      Query.outline [other, limited] ≠ Query.outline [other, marked] ∧
      Query.ofOutline? (Query.outline [other, limited]) = some [other, limited] := by
  intro limited marked other
  have hp : parse "b|randomize\x7bc\x7d,a#7 as x|limit:1" = .ok [other, limited] := by
    set_option maxRecDepth 4000 in cbv
  have hp' : parse "b|randomize\x7bc\x7d,a#7 as x|limits:1" = .ok [other, marked] := by
    set_option maxRecDepth 4000 in cbv
  have hne : [other, limited] ≠ [other, marked] := by simp [limited, marked]
  obtain ⟨hiff, hread⟩ := outline_eq_outline_iff hp hp'
  exact ⟨hp, hp', fun heq => hne (hiff.1 heq), hread⟩

end NestedQuery
