/-
# How property paths are written

The texts that are property paths, said without the reader: elements in a
row, each a bare name or a key in square brackets, with one point between two
of them that may be left out in front of a bracket (`Spells`). The reader
accepts these texts and no others, and says of each element what it means
(`parsePath_eq_ok_iff`). It reads one element at a time
(`element?_eq_some_iff`): the signs of a path leave no choice where an element
ends, and a point behind it decides what may begin the next one.

Segments can be written as such a text, positions and names that hold a point
in brackets, and are read back from it.

Key definitions: `PropertyPath.Element`, `PropertyPath.Spells`,
`PropertyPath.Element.Means`, `renderPath`.
Key theorems: `PropertyPath.element?_eq_some_iff`,
`PropertyPath.spells_of_segments?`, `PropertyPath.spells_renderPath`,
`parsePath_eq_ok_iff`, `parsePath_spelled`.
-/
import Mathlib.Data.List.Forall2
import NestedQuery.Proofs.BracketedKeys

namespace NestedQuery

namespace PropertyPath

/-- An element of a path as it is written. -/
inductive Element where
  | bare (name : String)
  | bracketed (key : String)

namespace Element

/-- The characters of an element. -/
def chars : Element → List Char
  | bare name => name.toList
  | bracketed key => '[' :: (key.toList ++ [']'])

/-- A bare name has no points and no square brackets, a key has no brackets, and neither is
empty. -/
def WellFormed : Element → Prop
  | bare name => name ≠ "" ∧ '.' ∉ name.toList ∧ '[' ∉ name.toList ∧ ']' ∉ name.toList
  | bracketed key => key ≠ "" ∧ '[' ∉ key.toList ∧ ']' ∉ key.toList

instance : (e : Element) → Decidable e.WellFormed
  | bare _ => inferInstanceAs (Decidable (_ ∧ _ ∧ _ ∧ _))
  | bracketed _ => inferInstanceAs (Decidable (_ ∧ _ ∧ _))

/-- Whether the element is a key in brackets. -/
def isBracketed : Element → Bool
  | bare _ => false
  | bracketed _ => true

end Element

/-- These characters are the elements, with a point between two of them or none in front of a
bracket. -/
inductive Spells : List Element → List Char → Prop
  | last {e : Element} (he : e.WellFormed) : Spells [e] e.chars
  | point {e : Element} {es : List Element} {cs : List Char} (he : e.WellFormed)
      (h : Spells es cs) : Spells (e :: es) (e.chars ++ '.' :: cs)
  | bracket {e : Element} {key : String} {es : List Element} {cs : List Char}
      (he : e.WellFormed) (h : Spells (.bracketed key :: es) cs) :
      Spells (e :: .bracketed key :: es) (e.chars ++ cs)

/-- The key is a position: digits of a number below the word size, behind one plus sign or none. -/
def IsPosition (key : String) (n : Nat) : Prop :=
  ∃ digits, (key.toList = digits ∨ key.toList = '+' :: digits) ∧ IsDigits digits ∧
    Numeral.value digits = n ∧ n < wordSize

/-- What an element says. -/
inductive Element.Means : Element → Segment → Prop
  | name (name : String) : Means (.bare name) (.field name)
  | position {key : String} {n : Nat} (h : IsPosition key n) : Means (.bracketed key) (.index n)
  | key {key : String} (h : ∀ n, ¬ IsPosition key n) : Means (.bracketed key) (.field key)

/-! ### What elements say -/

theorem isPosition_iff {key : String} {n : Nat} :
    IsPosition key n ↔ Numeral.index? key = some n := by
  rw [Numeral.index?_eq_some_iff]
  refine exists_congr fun digits => and_congr_right fun _ => ?_
  rw [Numeral.word?_eq_some_iff, IsDigits, List.all_eq_true]
  constructor
  · rintro ⟨⟨hne, hd⟩, rfl, hlt⟩
    exact ⟨hne, hd, hlt, rfl⟩
  · rintro ⟨hne, hd, hlt, rfl⟩
    exact ⟨⟨hne, hd⟩, rfl, hlt⟩

theorem ofKey_of_isPosition {key : String} {n : Nat} (h : IsPosition key n) :
    ofKey key = .index n := by
  rw [ofKey, isPosition_iff.1 h]

theorem ofKey_of_not_isPosition {key : String} (h : ∀ n, ¬ IsPosition key n) :
    ofKey key = .field key := by
  have hnone : Numeral.index? key = none :=
    Option.eq_none_iff_forall_ne_some.2 fun n hn => h n (isPosition_iff.2 hn)
  rw [ofKey, hnone]

namespace Element

/-- The segment of an element. -/
def segment : Element → Segment
  | bare name => .field name
  | bracketed key => ofKey key

theorem means_iff {e : Element} {s : Segment} : e.Means s ↔ e.segment = s := by
  constructor
  · intro h
    cases h with
    | name name => rfl
    | position h => exact ofKey_of_isPosition h
    | key h => exact ofKey_of_not_isPosition h
  · rintro rfl
    cases e with
    | bare name => exact .name name
    | bracketed key =>
      by_cases h : ∃ n, IsPosition key n
      · obtain ⟨n, h⟩ := h
        rw [segment, ofKey_of_isPosition h]
        exact .position h
      · rw [not_exists] at h
        rw [segment, ofKey_of_not_isPosition h]
        exact .key h

theorem forall₂_means_iff {es : List Element} {segments : List Segment} :
    List.Forall₂ Means es segments ↔ es.map segment = segments := by
  have hmeans : Means = fun e s => e.segment = s := by
    funext e s
    exact propext means_iff
  rw [← List.forall₂_eq_eq_eq, List.forall₂_map_left_iff, hmeans]

end Element

/-! ### One element -/

theorem inBrackets_iff {c : Char} : inBrackets c = true ↔ c ≠ '[' ∧ c ≠ ']' := by
  simp [inBrackets]

theorem isBare_iff {c : Char} : isBare c = true ↔ c ≠ '.' ∧ c ≠ '[' ∧ c ≠ ']' := by
  simp [isBare, inBrackets]

theorem forall_inBrackets_iff {cs : List Char} :
    (∀ c ∈ cs, inBrackets c = true) ↔ '[' ∉ cs ∧ ']' ∉ cs := by
  simp only [inBrackets_iff]
  constructor
  · exact fun h => ⟨fun hc => (h _ hc).1 rfl, fun hc => (h _ hc).2 rfl⟩
  · rintro ⟨hopening, hclosing⟩ c hc
    exact ⟨fun he => hopening (he ▸ hc), fun he => hclosing (he ▸ hc)⟩

theorem forall_isBare_iff {cs : List Char} :
    (∀ c ∈ cs, isBare c = true) ↔ '.' ∉ cs ∧ '[' ∉ cs ∧ ']' ∉ cs := by
  simp only [isBare_iff]
  constructor
  · exact fun h => ⟨fun hc => (h _ hc).1 rfl, fun hc => (h _ hc).2.1 rfl,
      fun hc => (h _ hc).2.2 rfl⟩
  · rintro ⟨hpoint, hopening, hclosing⟩ c hc
    exact ⟨fun he => hpoint (he ▸ hc), fun he => hopening (he ▸ hc), fun he => hclosing (he ▸ hc)⟩

namespace Element

theorem wellFormed_bare_iff {name : String} : (bare name).WellFormed ↔ IsBareName name.toList := by
  rw [WellFormed, IsBareName, forall_isBare_iff, Ne, Ne, String.toList_eq_nil_iff]

theorem wellFormed_bracketed_iff {key : String} :
    (bracketed key).WellFormed ↔ key.toList ≠ [] ∧ ∀ c ∈ key.toList, inBrackets c = true := by
  rw [WellFormed, forall_inBrackets_iff, Ne, Ne, String.toList_eq_nil_iff]

/-- A bare name ends where no character of bare names follows, a key with its bracket. -/
def Ends : Element → List Char → Prop
  | bare _, rest => ∀ c ∈ rest.head?, isBare c = false
  | bracketed _, _ => True

end Element

/-- An element is read exactly where one is written that ends there. -/
theorem element?_eq_some_iff {bare : Bool} {c : Char} {cs rest : List Char} {s : Segment} :
    element? bare c cs = some (s, rest) ↔
      ∃ e : Element, e.WellFormed ∧ c :: cs = e.chars ++ rest ∧ e.Ends rest ∧
        (bare = false → e.isBracketed) ∧ e.segment = s := by
  constructor
  · intro h
    unfold element? at h
    split at h
    · next hc =>
      subst hc
      split at h
      · next behind hd =>
        have hcs := List.takeWhile_append_dropWhile (p := inBrackets) (l := cs)
        rw [hd] at hcs
        dsimp only at h
        split at h
        · cases h
        · next hne =>
          cases h
          refine ⟨.bracketed (String.ofList (cs.takeWhile inBrackets)),
            Element.wellFormed_bracketed_iff.2 ?_, ?_, trivial, fun _ => rfl, rfl⟩
          · rw [String.toList_ofList]
            exact ⟨hne, all_takeWhile⟩
          · rw [Element.chars, String.toList_ofList, List.cons_append, List.append_assoc,
              List.singleton_append, hcs]
      · cases h
    · split at h
      · next hb =>
        cases h
        rw [Bool.and_eq_true] at hb
        have hname : IsBareName (c :: cs.takeWhile isBare) :=
          ⟨List.cons_ne_nil _ _, List.forall_mem_cons.2 ⟨hb.2, all_takeWhile⟩⟩
        refine ⟨.bare (String.ofList (c :: cs.takeWhile isBare)),
          Element.wellFormed_bare_iff.2 (by rwa [String.toList_ofList]), ?_, head_dropWhile,
          fun hf => ?_, rfl⟩
        · rw [Element.chars, String.toList_ofList, List.cons_append,
            List.takeWhile_append_dropWhile]
        · rw [hf] at hb
          cases hb.1
      · cases h
  · rintro ⟨e, he, hchars, hends, hb, rfl⟩
    cases e with
    | bare name =>
      have hbare := Element.wellFormed_bare_iff.1 he
      obtain ⟨d, ds, hname⟩ := List.exists_cons_of_ne_nil hbare.1
      rw [Element.chars, hname, List.cons_append] at hchars
      cases hchars
      rw [hname] at hbare
      cases bare with
      | false => cases hb rfl
      | true => rw [element?_bareName hbare hends, ← hname, String.ofList_toList, Element.segment]
    | bracketed key =>
      obtain ⟨hne, hk⟩ := Element.wellFormed_bracketed_iff.1 he
      have hclosing : ∀ c ∈ (']' :: rest).head?, inBrackets c = false := by simp [inBrackets]
      rw [Element.chars, List.cons_append, List.append_assoc, List.singleton_append] at hchars
      cases hchars
      rw [element?, if_pos rfl, dropWhile_append_of_head hk hclosing,
        takeWhile_append_of_head hk hclosing]
      simp [hne, Element.segment]

/-! ### Elements in a row -/

theorem point?_eq_some_iff {cs rest : List Char} {bare : Bool} :
    point? cs = some (bare, rest) ↔
      (bare = true ∧ cs = '.' :: rest ∧ rest ≠ []) ∨
        (bare = false ∧ cs = rest ∧ rest.head? ≠ some '.') := by
  unfold point?
  split
  · refine iff_of_false (by simp) ?_
    rintro (⟨-, hcs, hne⟩ | ⟨-, rfl, hhead⟩)
    · cases hcs
      exact hne rfl
    · exact hhead rfl
  · next ds hne =>
    have hds : ds ≠ [] := fun he => hne (he ▸ rfl)
    simp only [Option.some.injEq, Prod.mk.injEq, List.cons.injEq, true_and]
    constructor
    · rintro ⟨rfl, rfl⟩
      exact .inl ⟨rfl, rfl, hds⟩
    · rintro (⟨rfl, rfl, -⟩ | ⟨rfl, rfl, hhead⟩)
      · exact ⟨rfl, rfl⟩
      · exact absurd rfl hhead
  · next hne hpoint =>
    have hhead : cs.head? ≠ some '.' := by
      rintro hhead
      obtain ⟨ds, rfl⟩ := List.head?_eq_some_iff.1 hhead
      exact hpoint ds rfl
    simp only [Option.some.injEq, Prod.mk.injEq]
    constructor
    · rintro ⟨rfl, rfl⟩
      exact .inr ⟨rfl, rfl, hhead⟩
    · rintro (⟨rfl, rfl, -⟩ | ⟨rfl, rfl, -⟩)
      · exact absurd rfl (hpoint rest)
      · exact ⟨rfl, rfl⟩

/-- No element begins with a point. -/
theorem Element.chars_eq_cons {e : Element} (he : e.WellFormed) :
    ∃ c cs, e.chars = c :: cs ∧ c ≠ '.' ∧ (e.isBracketed ↔ c = '[') := by
  cases e with
  | bare name =>
    obtain ⟨hne, hbare⟩ := wellFormed_bare_iff.1 he
    obtain ⟨c, cs, hname⟩ := List.exists_cons_of_ne_nil hne
    rw [hname] at hbare
    obtain ⟨hpoint, hopening, -⟩ := isBare_iff.1 (hbare c List.mem_cons_self)
    exact ⟨c, cs, hname, hpoint, by simp [isBracketed, hopening]⟩
  | bracketed key => exact ⟨'[', _, rfl, by decide, by simp [isBracketed]⟩

namespace Spells

variable {es : List Element} {cs : List Char}

/-- The first element begins with the first character. -/
theorem exists_cons (h : Spells es cs) :
    ∃ e es' c cs', es = e :: es' ∧ cs = c :: cs' ∧ c ≠ '.' ∧ (e.isBracketed ↔ c = '[') := by
  cases h with
  | last he =>
    obtain ⟨c, cs, hchars, hc⟩ := Element.chars_eq_cons he
    exact ⟨_, _, c, cs, rfl, hchars, hc⟩
  | point he _ =>
    obtain ⟨c, cs, hchars, hc⟩ := Element.chars_eq_cons he
    exact ⟨_, _, c, _, rfl, by rw [hchars, List.cons_append], hc⟩
  | bracket he _ =>
    obtain ⟨c, cs, hchars, hc⟩ := Element.chars_eq_cons he
    exact ⟨_, _, c, _, rfl, by rw [hchars, List.cons_append], hc⟩

theorem ne_nil (h : Spells es cs) : cs ≠ [] := by
  obtain ⟨_, _, c, cs', -, rfl, -⟩ := h.exists_cons
  exact List.cons_ne_nil c cs'

end Spells

/-- What an element is spelled as in front of a text, and how it is read. -/
theorem segments?_chars {bare bare' : Bool} {e : Element} {behind rest : List Char}
    (he : e.WellFormed) (hends : e.Ends behind) (hb : bare = false → e.isBracketed)
    (hp : point? behind = some (bare', rest)) :
    segments? bare (e.chars ++ behind) = (segments? bare' rest).map (e.segment :: ·) := by
  obtain ⟨c, cs, hchars, -⟩ := Element.chars_eq_cons he
  have hread : element? bare c (cs ++ behind) = some (e.segment, behind) :=
    element?_eq_some_iff.2 ⟨e, he, by rw [hchars, List.cons_append], hends, hb, rfl⟩
  rw [hchars, List.cons_append]
  exact segments?_cons hread hp

theorem Spells.segments?_eq {es : List Element} {cs : List Char} (h : Spells es cs) {bare : Bool}
    (hb : bare = false → ∀ e ∈ es.head?, e.isBracketed) :
    segments? bare cs = some (es.map Element.segment) := by
  induction h generalizing bare with
  | @last e he =>
    have hends : e.Ends [] := by
      cases e <;> simp [Element.Ends]
    have hp : point? [] = some (false, []) := rfl
    have hread := segments?_chars he hends (fun hf => hb hf e rfl) hp
    rwa [List.append_nil, segments?] at hread
  | @point e es cs he h ih =>
    have hends : e.Ends ('.' :: cs) := by
      cases e <;> simp [Element.Ends, isBare]
    have hp : point? ('.' :: cs) = some (true, cs) :=
      point?_eq_some_iff.2 (.inl ⟨rfl, rfl, h.ne_nil⟩)
    rw [segments?_chars he hends (fun hf => hb hf e rfl) hp, ih fun hf => absurd hf (by decide)]
    rfl
  | @bracket e key es cs he h ih =>
    obtain ⟨_, _, c, cs', hes, rfl, hpoint, hopening⟩ := h.exists_cons
    cases hes
    obtain rfl : c = '[' := hopening.1 rfl
    have hends : e.Ends ('[' :: cs') := by
      cases e <;> simp [Element.Ends, isBare, inBrackets]
    have hp : point? ('[' :: cs') = some (false, '[' :: cs') :=
      point?_eq_some_iff.2 (.inr ⟨rfl, rfl, by simp⟩)
    rw [segments?_chars he hends (fun hf => hb hf e rfl) hp, ih (by simp [Element.isBracketed])]
    rfl

/-- What is read is spelled, and it begins with a bracket where no bare name is allowed. -/
theorem spells_of_segments? {bare : Bool} {cs : List Char} {segments : List Segment}
    (hne : cs ≠ []) (h : segments? bare cs = some segments) :
    ∃ es, Spells es cs ∧ (bare = false → ∀ e ∈ es.head?, e.isBracketed) ∧
      es.map Element.segment = segments := by
  fun_induction segments? bare cs generalizing segments with
  | case1 => exact absurd rfl hne
  | case2 => cases h
  | case3 => cases h
  | case4 bare c cs segment behind he bare' rest hp ih =>
    obtain ⟨others, hothers, rfl⟩ := Option.map_eq_some_iff.1 h
    obtain ⟨e, hwell, hchars, hends, hb, rfl⟩ := element?_eq_some_iff.1 he
    have hhead : ∀ es, bare = false → ∀ f ∈ (e :: es).head?, f.isBracketed := by
      rintro es hf _ ⟨rfl⟩
      exact hb hf
    rw [hchars]
    obtain ⟨rfl, rfl, hrest⟩ | ⟨rfl, rfl, hpoint⟩ := point?_eq_some_iff.1 hp
    · obtain ⟨es, hes, -, rfl⟩ := ih hrest hothers
      exact ⟨e :: es, .point hwell hes, hhead es, rfl⟩
    · by_cases hnil : behind = []
      · subst hnil
        rw [segments?] at hothers
        cases hothers
        rw [List.append_nil]
        exact ⟨[e], .last hwell, hhead [], rfl⟩
      · obtain ⟨es, hes, hbrackets, rfl⟩ := ih hnil hothers
        obtain ⟨f, es', _, _, rfl, -⟩ := hes.exists_cons
        cases f with
        | bare name => cases hbrackets rfl _ rfl
        | bracketed key => exact ⟨e :: .bracketed key :: es', .bracket hwell hes, hhead _, rfl⟩

end PropertyPath

open PropertyPath

/-- A text is read as these segments exactly if it is spelled as elements that say so. -/
theorem parsePath_eq_ok_iff {path : String} {segments : List Segment} :
    parsePath path = .ok segments ↔
      ∃ es, Spells es path.toList ∧ List.Forall₂ Element.Means es segments := by
  simp only [Element.forall₂_means_iff]
  unfold parsePath
  constructor
  · intro h
    split at h
    · cases h
    · next hne =>
      split at h
      · next hs =>
        cases h
        have hnil : path.toList ≠ [] := fun he => hne (String.toList_eq_nil_iff.1 he)
        obtain ⟨es, hes, -, hsegments⟩ := spells_of_segments? hnil hs
        exact ⟨es, hes, hsegments⟩
      · cases h
  · rintro ⟨es, hes, rfl⟩
    have hne : path ≠ "" := fun he => hes.ne_nil (String.toList_eq_nil_iff.2 he)
    rw [if_neg hne, hes.segments?_eq fun hf => absurd hf (by decide)]

/-- A text that is not read is reported as it is. -/
theorem parsePath_eq_error {path : String} (h : ∀ segments, parsePath path ≠ .ok segments) :
    parsePath path = .error (.invalidPath path) := by
  unfold parsePath at h ⊢
  split
  · rfl
  · next hne =>
    split
    · next segments hs => exact absurd (by rw [if_neg hne, hs]) (h segments)
    · rfl

/-! ### Writing segments -/

/-- A segment as it is written: positions, and names with points, in brackets. -/
def Segment.written : Segment → String
  | index n => "[" ++ toString n ++ "]"
  | field name => if '.' ∈ name.toList then "[" ++ name ++ "]" else name

/-- The segments as they are written, with points between them. -/
def renderPath (segments : List Segment) : String := ".".intercalate (segments.map Segment.written)

/-- A segment can be written if its name is not empty and holds no brackets, and its position is
one of a 64-bit word. -/
def Segment.Writable : Segment → Prop
  | index n => n < wordSize
  | field name => name ≠ "" ∧ '[' ∉ name.toList ∧ ']' ∉ name.toList

instance : (s : Segment) → Decidable s.Writable
  | .index _ => inferInstanceAs (Decidable (_ < _))
  | .field _ => inferInstanceAs (Decidable (_ ∧ _ ∧ _))

namespace PropertyPath

/-- The numeral of a position says the position. -/
theorem isPosition_toString {n : Nat} (h : n < wordSize) : IsPosition (toString n) n := by
  refine ⟨Nat.toDigits 10 n, .inl (Numeral.toList_toString n), ⟨Nat.toDigits_ne_nil, ?_⟩,
    Numeral.value_toDigits n, h⟩
  exact fun c hc => Nat.isDigit_of_mem_toDigits (by decide) (by decide) hc

/-- A key with a point is no position. -/
theorem not_isPosition_of_point {key : String} (h : '.' ∈ key.toList) (n : Nat) :
    ¬ IsPosition key n := by
  rintro ⟨digits, hkey, hd, -⟩
  have hdigit : '.' ∈ digits := by
    rcases hkey with hkey | hkey
    · rwa [hkey] at h
    · rw [hkey] at h
      exact (List.mem_cons.1 h).resolve_left (by decide)
  exact absurd (hd.2 _ hdigit) (by decide)

/-- A segment is written as an element that says it. -/
theorem exists_element_written {s : Segment} (h : s.Writable) :
    ∃ e : Element, e.WellFormed ∧ e.chars = s.written.toList ∧ e.Means s := by
  cases s with
  | index n =>
    have hposition := isPosition_toString h
    refine ⟨.bracketed (toString n), Element.wellFormed_bracketed_iff.2 ⟨?_, ?_⟩, ?_,
      .position hposition⟩
    · rw [Numeral.toList_toString]
      exact Nat.toDigits_ne_nil
    · intro c hc
      rw [Numeral.toList_toString] at hc
      have hd : c.isDigit = true := Nat.isDigit_of_mem_toDigits (by decide) (by decide) hc
      rw [inBrackets_iff]
      constructor <;> rintro rfl <;> exact absurd hd (by decide)
    · simp [Element.chars, Segment.written, String.toList_append]
  | field name =>
    obtain ⟨hne, hopening, hclosing⟩ := h
    by_cases hpoint : '.' ∈ name.toList
    · refine ⟨.bracketed name, ⟨hne, hopening, hclosing⟩, ?_,
        .key (not_isPosition_of_point hpoint)⟩
      simp [Element.chars, Segment.written, hpoint, String.toList_append]
    · refine ⟨.bare name, ⟨hne, hpoint, hopening, hclosing⟩, ?_, .name name⟩
      rw [Segment.written, if_neg hpoint, Element.chars]

/-- Written segments with points between them are elements that say them. -/
theorem spells_renderPath : ∀ {segments : List Segment}, segments ≠ [] →
    (∀ s ∈ segments, s.Writable) →
    ∃ es, Spells es (renderPath segments).toList ∧ List.Forall₂ Element.Means es segments
  | [], hne, _ => absurd rfl hne
  | [s], _, h => by
    obtain ⟨e, he, hchars, hmeans⟩ := exists_element_written (h s List.mem_cons_self)
    refine ⟨[e], ?_, .cons hmeans .nil⟩
    rw [renderPath, List.map_singleton, String.intercalate_singleton, ← hchars]
    exact .last he
  | s :: other :: segments, _, h => by
    obtain ⟨hs, hothers⟩ := List.forall_mem_cons.1 h
    obtain ⟨e, he, hchars, hmeans⟩ := exists_element_written hs
    obtain ⟨es, hes, hmean⟩ := spells_renderPath (List.cons_ne_nil _ _) hothers
    refine ⟨e :: es, ?_, .cons hmeans hmean⟩
    have hrender : (renderPath (s :: other :: segments)).toList =
        e.chars ++ '.' :: (renderPath (other :: segments)).toList := by
      rw [hchars]
      simp [renderPath, String.intercalate_cons_cons, String.toList_append]
    rw [hrender]
    exact .point he hes

end PropertyPath

/-- **Reading a path accepts exactly what is written as one, and undoes the writing.** A text is
read as segments if and only if it is elements, each of which is a bare name or a key in brackets,
with a point between two of them that may be left out in front of a bracket; the segments are what
the elements say, in order. Every other text is reported as it is. So segments that can be written
are read back from what they are written as. -/
theorem parsePath_spelled :
    (∀ path segments, parsePath path = .ok segments ↔
      ∃ es, Spells es path.toList ∧ List.Forall₂ Element.Means es segments) ∧
    (∀ path e, parsePath path = .error e ↔
      (¬ ∃ es, Spells es path.toList) ∧ e = .invalidPath path) ∧
    ∀ segments, segments ≠ [] → (∀ s ∈ segments, s.Writable) →
      parsePath (renderPath segments) = .ok segments := by
  refine ⟨fun _ _ => parsePath_eq_ok_iff, fun path e => ⟨fun h => ?_, ?_⟩, fun segments hne h => ?_⟩
  · have hnone : ∀ segments, parsePath path ≠ .ok segments := by simp [h]
    refine ⟨?_, Except.error.inj (h.symm.trans (parsePath_eq_error hnone))⟩
    rintro ⟨es, hes⟩
    exact hnone _ (parsePath_eq_ok_iff.2 ⟨es, hes, Element.forall₂_means_iff.2 rfl⟩)
  · rintro ⟨hnone, rfl⟩
    refine parsePath_eq_error fun segments h => hnone ?_
    obtain ⟨es, hes, -⟩ := parsePath_eq_ok_iff.1 h
    exact ⟨es, hes⟩
  · exact parsePath_eq_ok_iff.2 (spells_renderPath hne h)

/-- Keys in brackets need no point in front of them, two points in a row are no path, and a name
with a point is read back. -/
theorem parsePath_spelled_signs :
    let segments : List Segment := [.field "a.b", .index 3, .field "7"]
    parsePath "a.b[c d][+07]" = .ok [.field "a", .field "b", .field "c d", .index 7] ∧
      (¬ ∃ es, Spells es "a..b".toList) ∧ renderPath segments = "[a.b].[3].7" ∧
      parsePath "[a.b].[3].7" = .ok segments := by
  intro segments
  obtain ⟨hread, herror, hwritten⟩ := parsePath_spelled
  have hchars : "a.b[c d][+07]".toList = ['a'] ++ '.' :: (['b'] ++
      (('[' :: (['c', ' ', 'd'] ++ [']'])) ++ '[' :: (['+', '0', '7'] ++ [']']))) := rfl
  have hspells : Spells [.bare "a", .bare "b", .bracketed "c d", .bracketed "+07"]
      "a.b[c d][+07]".toList := by
    rw [hchars]
    exact .point (by decide) <| .bracket (by decide) <| .bracket (by decide) <| .last (by decide)
  have hdigits : IsDigits ['0', '7'] := ⟨List.cons_ne_nil _ _, List.all_eq_true.1 rfl⟩
  have hseven : IsPosition "+07" 7 := ⟨['0', '7'], .inr rfl, hdigits, rfl, by decide⟩
  have hkey : ∀ n, ¬ IsPosition "c d" n := by
    intro n hn
    have hnone : Numeral.index? "c d" = none := by decide
    rw [isPosition_iff.1 hn] at hnone
    cases hnone
  have hrender : renderPath segments = "[a.b].[3].7" := by cbv
  have hrefused : parsePath "a..b" = .error (.invalidPath "a..b") := by cbv
  refine ⟨(hread _ _).2 ⟨_, hspells, ?_⟩, ?_, hrender, ?_⟩
  · exact .cons (.name _) <| .cons (.name _) <| .cons (.key hkey) <| .cons (.position hseven) .nil
  · exact ((herror _ _).1 hrefused).1
  · rw [← hrender]
    exact hwritten segments (List.cons_ne_nil _ _) (by decide)

end NestedQuery
