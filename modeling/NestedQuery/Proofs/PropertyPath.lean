/-
# Paths of names

Names that a query joins by points and the elements of a property path are
told apart in two ways, by tokens and by characters. They agree: no word
holds a point or a square bracket, so a path that a query can say is read as
its names, none of which is taken for a position (`parsePath_of_isPath`).

Key definition: `dotNames`.
Key theorems: `PropertyPath.segments?_intercalate`, `parsePath_of_isPath`,
`ne_nil_of_parsePath`, `Accessor.getValue_congr`.
-/
import NestedQuery.Proofs.Render
import NestedQuery.Value.Access

namespace NestedQuery

/-- The texts between the points of a path. -/
def dotNames (path : String) : List String := (path.toList.splitOn '.').map String.ofList

namespace PropertyPath

/-- Characters of bare names only, and at least one of them. -/
def IsBareName (cs : List Char) : Prop := cs ≠ [] ∧ ∀ c ∈ cs, isBare c = true

theorem isBare_of_isWordPart {c : Char} (h : Text.isWordPart c = true) : isBare c = true := by
  have hne : ∀ d, Text.isWordPart d = false → c ≠ d := by
    rintro _ hd rfl
    rw [h] at hd
    cases hd
  have hpoint : c ≠ '.' := hne _ (by decide)
  have hopening : c ≠ '[' := hne _ (by decide)
  have hclosing : c ≠ ']' := hne _ (by decide)
  simp [isBare, inBrackets, hpoint, hopening, hclosing]

theorem isBareName_of_isName {name : String} (h : IsName name) : IsBareName name.toList := by
  obtain ⟨⟨c, hc, -⟩, hparts⟩ := h
  refine ⟨?_, fun c hm => isBare_of_isWordPart (hparts c hm)⟩
  intro hnil
  rw [hnil] at hc
  cases hc

theorem forall_isBareName {names : List String} (h : ∀ name ∈ names, IsName name) :
    ∀ cs ∈ names.map String.toList, IsBareName cs := by
  intro cs hcs
  obtain ⟨name, hname, rfl⟩ := List.mem_map.1 hcs
  exact isBareName_of_isName (h name hname)

/-- A bare name is an element up to the first character that no bare name has. -/
theorem element?_bareName {c : Char} {cs rest : List Char} (h : IsBareName (c :: cs))
    (hr : ∀ d ∈ rest.head?, isBare d = false) :
    element? true c (cs ++ rest) = some (.field (String.ofList (c :: cs)), rest) := by
  have hc : isBare c = true := h.2 c List.mem_cons_self
  have hcs : ∀ d ∈ cs, isBare d = true := fun d hd => h.2 d (List.mem_cons_of_mem _ hd)
  have hbracket : c ≠ '[' := by
    rintro rfl
    exact absurd hc (by decide)
  rw [element?, if_neg hbracket, takeWhile_append_of_head hcs hr, dropWhile_append_of_head hcs hr]
  simp [hc]

/-- The segments behind an element are those of what stands behind its point. -/
theorem segments?_cons {bare bare' : Bool} {c : Char} {cs behind rest : List Char}
    {segment : Segment} (he : element? bare c cs = some (segment, behind))
    (hp : point? behind = some (bare', rest)) :
    segments? bare (c :: cs) = (segments? bare' rest).map (segment :: ·) := by
  rw [segments?]
  split
  · next h =>
    rw [he] at h
    cases h
  · next h =>
    rw [he] at h
    cases h
    split
    · next h =>
      rw [hp] at h
      cases h
    · next h =>
      rw [hp] at h
      cases h
      rfl

/-- Bare names joined by points are read as these names. -/
theorem segments?_intercalate : ∀ {names : List (List Char)}, names ≠ [] →
    (∀ name ∈ names, IsBareName name) →
    segments? true (['.'].intercalate names) =
      some (names.map fun name => .field (String.ofList name))
  | [], hne, _ => absurd rfl hne
  | [] :: _, _, h => absurd rfl (h [] List.mem_cons_self).1
  | [c :: cs], _, h => by
    have hend : ∀ d ∈ ([] : List Char).head?, isBare d = false := by simp
    have he := element?_bareName (h _ List.mem_cons_self) hend
    rw [List.append_nil] at he
    rw [List.intercalate_singleton, segments?_cons he rfl, segments?]
    rfl
  | (c :: cs) :: other :: names, _, h => by
    have hothers : ∀ name ∈ other :: names, IsBareName name :=
      fun name hm => h name (List.mem_cons_of_mem _ hm)
    have hpoint : ∀ d ∈ ('.' :: ['.'].intercalate (other :: names)).head?, isBare d = false := by
      simp [isBare]
    have he := element?_bareName (h _ List.mem_cons_self) hpoint
    -- the names behind the point are not empty, so it is none at the end
    have hp : point? ('.' :: ['.'].intercalate (other :: names)) =
        some (true, ['.'].intercalate (other :: names)) := by
      obtain ⟨d, ds, rfl⟩ := List.exists_cons_of_ne_nil (hothers other List.mem_cons_self).1
      cases names <;> rfl
    have hchars : ['.'].intercalate ((c :: cs) :: other :: names) =
        c :: (cs ++ '.' :: ['.'].intercalate (other :: names)) := by
      simp [List.intercalate_cons_cons]
    rw [hchars, segments?_cons he hp, segments?_intercalate (by simp) hothers]
    rfl

/-- Between and in bare names there is nothing but points and their own characters. -/
theorem isBare_of_mem_intercalate : ∀ {names : List (List Char)},
    (∀ name ∈ names, IsBareName name) → ∀ c ∈ ['.'].intercalate names, c = '.' ∨ isBare c = true
  | [], _, c, hc => by simp at hc
  | [name], h, c, hc => by
    rw [List.intercalate_singleton] at hc
    exact .inr ((h name List.mem_cons_self).2 c hc)
  | name :: other :: names, h, c, hc => by
    rw [List.intercalate_cons_cons, List.append_assoc, List.mem_append, List.mem_append,
      List.mem_singleton] at hc
    obtain ⟨hname, hothers⟩ := List.forall_mem_cons.1 h
    rcases hc with hc | hc | hc
    · exact .inr (hname.2 c hc)
    · exact .inl hc
    · exact isBare_of_mem_intercalate hothers c hc

end PropertyPath

open PropertyPath

theorem dotNames_intercalate {names : List String} (hne : names ≠ [])
    (h : ∀ name ∈ names, IsName name) : dotNames (".".intercalate names) = names := by
  have hpoint : ∀ cs ∈ names.map String.toList, '.' ∉ cs :=
    fun cs hcs hmem => absurd ((forall_isBareName h cs hcs).2 _ hmem) (by decide)
  have hjoined : (".".intercalate names).toList = ['.'].intercalate (names.map String.toList) :=
    String.toList_intercalate
  rw [dotNames, hjoined, List.splitOn_intercalate _ hpoint (by simpa using hne), List.map_map]
  simp [Function.comp_def]

/-- A path that a query can say is read as the names between its points. -/
theorem parsePath_of_isPath {path : String} (h : IsPath path) :
    parsePath path = .ok ((dotNames path).map .field) := by
  obtain ⟨names, hne, hnames, rfl⟩ := h
  have hjoined : (".".intercalate names).toList = ['.'].intercalate (names.map String.toList) :=
    String.toList_intercalate
  have hsegments := segments?_intercalate (by simpa using hne) (forall_isBareName hnames)
  have hempty : ".".intercalate names ≠ "" := by
    intro he
    rw [← hjoined, he, String.toList_empty, segments?] at hsegments
    simp [hne] at hsegments
  rw [parsePath, if_neg hempty, hjoined, hsegments, dotNames_intercalate hne hnames, List.map_map]
  simp [Function.comp_def]

example : parsePath "posts.title" = .ok [.field "posts", .field "title"] := by cbv

/-- A path that a query can say has no square brackets. -/
theorem isBare_of_mem_path {path : String} (h : IsPath path) {c : Char} (hc : c ∈ path.toList) :
    c = '.' ∨ isBare c = true := by
  obtain ⟨names, -, hnames, rfl⟩ := h
  rw [String.toList_intercalate] at hc
  exact isBare_of_mem_intercalate (forall_isBareName hnames) c hc

/-- A path without a point is read as one name. -/
theorem parsePath_of_isPath_of_not_mem {path : String} (h : IsPath path) (hp : '.' ∉ path.toList) :
    parsePath path = .ok [.field path] := by
  have hsplit : path.toList.splitOn '.' = [path.toList] := by
    have hone := List.splitOn_intercalate '.' (List.forall_mem_singleton.2 hp) (by simp)
    rwa [List.intercalate_singleton] at hone
  have hnames : dotNames path = [path] := by
    rw [dotNames, hsplit]
    simp
  rw [parsePath_of_isPath h, hnames]
  rfl

/-- A name is a path. -/
theorem isPath_of_isName {name : String} (h : IsName name) : IsPath name :=
  ⟨[name], List.cons_ne_nil _ _, List.forall_mem_singleton.2 h, rfl⟩

theorem not_mem_of_isName {name : String} (h : IsName name) : '.' ∉ name.toList :=
  fun hmem => absurd ((isBareName_of_isName h).2 _ hmem) (by decide)

/-- A name is read as itself. -/
theorem parsePath_of_isName {name : String} (h : IsName name) :
    parsePath name = .ok [.field name] :=
  parsePath_of_isPath_of_not_mem (isPath_of_isName h) (not_mem_of_isName h)

/-- Every path that can be read has a first element. -/
theorem ne_nil_of_parsePath {path : String} {segments : List Segment}
    (h : parsePath path = .ok segments) : segments ≠ [] := by
  rintro rfl
  unfold parsePath at h
  split at h
  · cases h
  · next hne =>
    cases hchars : path.toList with
    | nil => exact hne (String.toList_eq_nil_iff.1 hchars)
    | cons c cs =>
      rw [hchars, segments?] at h
      split at h
      · next hs =>
        split at hs
        · cases hs
        · split at hs
          · cases hs
          · obtain ⟨others, -, hcons⟩ := Option.map_eq_some_iff.1 hs
            cases h
            cases hcons
      · cases h

/-- Only what the first element reads of a value matters to a path. -/
theorem Accessor.getValue_congr (accessor : Accessor) {v w : Value}
    (h : ∀ segment, v.read segment = w.read segment) (path : String) :
    accessor.getValue v path = accessor.getValue w path := by
  unfold getValue
  cases hp : parsePath path with
  | error e => rfl
  | ok segments =>
    obtain ⟨segment, segments, rfl⟩ := List.exists_cons_of_ne_nil (ne_nil_of_parsePath hp)
    have hfollow : v.follow (segment :: segments) = w.follow (segment :: segments) := by
      unfold Value.follow
      rw [h segment]
    dsimp only
    rw [hfollow]

end NestedQuery
