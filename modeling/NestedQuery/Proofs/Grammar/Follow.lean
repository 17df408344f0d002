/-
# What may follow a phrase

A phrase looks at no more than the first of the tokens behind it. So tokens
derive the same in front of all that begins alike. They also derive it in
front of a closing brace and at the end, since no optional part and no
repetition goes on with one of these.

Key definitions: `Grammar.BeginsAs`, `Grammar.Follows`.
Key theorems: `Grammar.Path.beginsAs`, `Grammar.Heading.beginsAs`,
`Grammar.IsModifier.follows`, `Grammar.IsEntity.follows`,
`Grammar.IsQuery.follows`.
-/
import NestedQuery.Proofs.Render.RoundTrip

namespace NestedQuery
namespace Grammar

/-- Tokens that begin as these do, or that begin with one of some kinds if there are any. -/
def BeginsAs (kinds : List Kind) (behind more : List Token) : Prop :=
  more.head? = behind.head? ∨ Begins kinds more

variable {kinds : List Kind} {behind more ts : List Token}

namespace BeginsAs

theorem cons (kinds : List Kind) (token : Token) (behind more : List Token) :
    BeginsAs kinds (token :: behind) (token :: more) := .inl rfl

theorem append (h : BeginsAs kinds behind more) (ts : List Token) :
    BeginsAs kinds (ts ++ behind) (ts ++ more) := by
  cases ts with
  | nil => exact h
  | cons token ts => exact cons kinds token _ _

/-- What the first token has, it still has if tokens of these kinds have it. -/
theorem forall_head {P : Token → Prop} (h : BeginsAs kinds behind more)
    (hc : ∀ token : Token, token.kind ∈ kinds → P token)
    (hb : ∀ token ∈ behind.head?, P token) : ∀ token ∈ more.head?, P token := by
  intro token ht
  rcases h with h | h
  · exact hb token (h ▸ ht)
  · exact hc token (h token ht)

theorem without {kind : Kind} (h : BeginsAs kinds behind more) (hk : kind ∉ kinds)
    (hb : Without kind behind) : Without kind more :=
  h.forall_head (fun _ hc he => hk (he ▸ hc)) hb

end BeginsAs

/-- Tokens that begin as these do, or that begin with a closing brace if there are any. -/
def Follows (behind more : List Token) : Prop :=
  more.head? = behind.head? ∨ Begins [.closeCurly] more

namespace Follows

theorem beginsAs (h : Follows behind more) : BeginsAs [.closeCurly] behind more := h

theorem cons (token : Token) (behind more : List Token) :
    Follows (token :: behind) (token :: more) := .inl rfl

theorem append (h : Follows behind more) (ts : List Token) :
    Follows (ts ++ behind) (ts ++ more) := h.beginsAs.append ts

theorem without {kind : Kind} (h : Follows behind more) (hk : kind ≠ .closeCurly)
    (hb : Without kind behind) : Without kind more :=
  h.beginsAs.without (fun hmem => hk (List.mem_singleton.1 hmem)) hb

end Follows

/-! ### Paths and modifiers -/

/-- A path ends in front of everything but a point. -/
theorem Names.beginsAs {names : List String} (h : Names behind ts names)
    (hf : BeginsAs kinds behind more) (hk : .dot ∉ kinds) : Names more ts names := by
  induction h with
  | last hn hb => exact .last hn (hf.forall_head (fun dot hc hj => hk (hj.1 ▸ hc)) hb)
  | dot hn hd _ ih => exact .dot hn hd ih

theorem Path.beginsAs {path : String} (h : Path behind ts path) (hf : BeginsAs kinds behind more)
    (hk : .dot ∉ kinds) : Path more ts path := by
  obtain ⟨names, hn, rfl⟩ := h
  exact ⟨names, hn.beginsAs hf hk, rfl⟩

theorem Path.follows {path : String} (h : Path behind ts path) (hf : Follows behind more) :
    Path more ts path := h.beginsAs hf.beginsAs (by decide)

theorem Term.follows {term : SortTerm} (h : Term behind ts term) (hf : Follows behind more) :
    Term more ts term := by
  cases h with
  | bare hp hb => exact .bare (hp.follows hf) (hf.without (by decide) hb)
  | directed hp hw => exact .directed (hp.follows (.cons _ _ _)) hw

theorem Terms.follows {terms : List SortTerm} (h : Terms behind ts terms)
    (hf : Follows behind more) : Terms more ts terms := by
  induction h with
  | last ht hb => exact .last (ht.follows hf) (hf.without (by decide) hb)
  | more ht hc _ ih => exact .more (ht.follows (.cons _ _ _)) hc ih

theorem Arguments.follows {r : Nat × Option Nat} (h : Arguments behind ts r)
    (hf : Follows behind more) : Arguments more ts r := by
  cases h with
  | count hn hb => exact .count hn (hf.without (by decide) hb)
  | offsetAndCount hm hc hn => exact .offsetAndCount hm hc hn
  | offset hm hc hn => exact .offset hm hc hn

theorem Payload.follows {depth : Nat} (h : Payload behind depth ts) (hf : Follows behind more) :
    Payload more depth ts := by
  induction h with
  | done hb =>
    refine .done (hf.beginsAs.forall_head (fun token hc => ?_) hb)
    rw [List.mem_singleton.1 hc]
    rfl
  | more ht _ ih => exact .more ht ih

theorem IsModifier.follows {m : Modifier} (h : IsModifier behind ts m)
    (hf : Follows behind more) : IsModifier more ts m := by
  cases h with
  | sort hw ht hc h => exact .sort hw ht hc (h.follows hf)
  | limit hw ht hc h => exact .limit hw ht hc (h.follows hf)
  | randomize hw ht => exact .randomize hw ht
  | bare hw ht hb => exact .bare hw ht (hf.without (by decide) hb)
  | payload hw ht hc h => exact .payload hw ht hc (h.follows hf)

theorem Modifiers.follows {ms : List Modifier} (h : Modifiers behind ts ms)
    (hf : Follows behind more) : Modifiers more ts ms := by
  induction h with
  | done hb => exact .done (hf.without (by decide) hb)
  | more hp hm _ ih => exact .more hp (hm.follows (hf.append _)) ih

/-! ### Entities -/

theorem Marked.beginsAs {mark : Kind} {signs : List Kind} {text : Option String}
    (h : Marked mark signs behind ts text) (hf : BeginsAs kinds behind more) (hk : mark ∉ kinds) :
    Marked mark signs more ts text := by
  cases h with
  | absent hb => exact .absent (hf.without hk hb)
  | present hs ht => exact .present hs ht

theorem Marked.follows {mark : Kind} {signs : List Kind} {text : Option String}
    (h : Marked mark signs behind ts text) (hk : mark ≠ .closeCurly) (hf : Follows behind more) :
    Marked mark signs more ts text :=
  h.beginsAs hf.beginsAs fun hmem => hk (List.mem_singleton.1 hmem)

/-- A heading stands where its modifiers do, unless what follows goes on with it. -/
theorem Heading.beginsAs {entity : Entity} (h : Heading behind ts entity)
    (hf : BeginsAs kinds behind more) (hk : ∀ kind ∈ [Kind.dot, .sharp, .asKeyword], kind ∉ kinds)
    (hm : ∀ before ms, ts = before ++ ms → Modifiers behind ms entity.modifiers →
      Modifiers more ms entity.modifiers) : Heading more ts entity := by
  obtain ⟨hdot, hsharp, has, -⟩ : .dot ∉ kinds ∧ .sharp ∉ kinds ∧ .asKeyword ∉ kinds ∧ True := by
    simpa using hk
  cases h with
  | mk hp hi ha hms =>
    exact .mk (hp.beginsAs (hf.append _) hdot) (hi.beginsAs (hf.append _) hsharp)
      (ha.beginsAs (hf.append _) has) (hm _ _ rfl hms)

theorem Heading.follows {entity : Entity} (h : Heading behind ts entity)
    (hf : Follows behind more) : Heading more ts entity :=
  h.beginsAs hf.beginsAs (by decide) fun _ _ _ hm => hm.follows hf

/-- A path that nothing goes on with is a heading of its own. -/
theorem Heading.of_path {path : String} (hp : Path behind ts path)
    (hb : Begins afterHeading behind) : Heading behind ts ⟨path, path, none, none, []⟩ := by
  have h : Heading behind (ts ++ [] ++ [] ++ []) ⟨Option.getD none path, path, none, none, []⟩ :=
    .mk hp (.absent (hb.without (by decide))) (.absent (hb.without (by decide)))
      (.done (hb.without (by decide)))
  simpa using h

mutual

theorem IsEntity.follows {behind more ts : List Token} {entity : Entity} :
    IsEntity behind ts entity → Follows behind more → IsEntity more ts entity
  | .bare h hb, hf => .bare (h.follows hf) (hf.without (by decide) hb)
  | .nested h ho hq hc, _ =>
    .nested (h.follows (.cons _ _ _)) ho (IsQuery.follows hq (.cons _ _ _)) hc

theorem IsQuery.follows {behind more ts : List Token} {query : Query} :
    IsQuery behind ts query → Follows behind more → IsQuery more ts query
  | .last h hb, hf => .last (IsEntity.follows h hf) (hf.without (by decide) hb)
  | .more h hc hq, hf => .more (IsEntity.follows h (.cons _ _ _)) hc (IsQuery.follows hq hf)

end

end Grammar
end NestedQuery
