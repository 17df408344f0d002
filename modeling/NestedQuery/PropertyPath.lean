/-
# Property paths

A property path is a sequence of elements: bare names, and keys in square
brackets. A point stands between two elements and may be left out in front of
a bracketed key; none stands at the end. A bracketed key is a position if it
is a numeral that fits a 64-bit word, and otherwise a name.

Key definitions: `Segment`, `PropertyPath.element?`,
`PropertyPath.segments?`, `parsePath`.
-/
import NestedQuery.Error
import NestedQuery.Text.Numeral

namespace NestedQuery

/-- One step of a property path. -/
inductive Segment where
  | field (name : String)
  | index (position : Nat)
  deriving DecidableEq

namespace PropertyPath

/-- Whether a character may be part of a bracketed key. -/
def inBrackets (c : Char) : Bool := c != '[' && c != ']'

/-- Whether a character may be part of a bare name. -/
def isBare (c : Char) : Bool := c != '.' && inBrackets c

/-- What a bracketed key says. -/
def ofKey (key : String) : Segment :=
  match Numeral.index? key with
  | some position => .index position
  | none => .field key

/-- The element that begins with this character, and what follows it. A bare name can only
stand where `bare` allows it. -/
def element? (bare : Bool) (c : Char) (cs : List Char) : Option (Segment × List Char) :=
  if c = '[' then
    match cs.dropWhile inBrackets with
    | ']' :: rest =>
      let key := cs.takeWhile inBrackets
      if key = [] then none else some (ofKey (String.ofList key), rest)
    | _ => none
  else if bare && isBare c then
    some (.field (String.ofList (c :: cs.takeWhile isBare)), cs.dropWhile isBare)
  else none

/-- Skips the point behind an element, which something must follow, and says whether there was
one. -/
def point? : List Char → Option (Bool × List Char)
  | ['.'] => none
  | '.' :: rest => some (true, rest)
  | rest => some (false, rest)

theorem length_of_element? {bare : Bool} {c : Char} {cs rest : List Char} {segment : Segment}
    (h : element? bare c cs = some (segment, rest)) : rest.length ≤ cs.length := by
  unfold element? at h
  split at h
  · split at h
    · next hd =>
      have hl := (List.dropWhile_sublist (l := cs) inBrackets).length_le
      rw [hd] at hl
      simp only [List.length_cons] at hl
      dsimp only at h
      split at h
      · simp at h
      · cases h
        omega
    · simp at h
  · split at h
    · cases h
      exact (List.dropWhile_sublist _).length_le
    · simp at h

theorem length_of_point? {bare : Bool} {cs rest : List Char} (h : point? cs = some (bare, rest)) :
    rest.length ≤ cs.length := by
  unfold point? at h
  split at h
  · simp at h
  · cases h
    simp
  · cases h
    exact Nat.le_refl _

/-- The elements of a path, the first of which may be a bare name if `bare` says so. -/
def segments? (bare : Bool) : List Char → Option (List Segment)
  | [] => some []
  | c :: cs =>
    match _h : element? bare c cs with
    | none => none
    | some (segment, rest) =>
      match _h' : point? rest with
      | none => none
      | some (bare, rest) => (segments? bare rest).map (segment :: ·)
termination_by cs => cs.length
decreasing_by
  have h1 := length_of_element? ‹element? _ _ _ = _›
  have h2 := length_of_point? ‹point? _ = _›
  simp only [List.length_cons]
  omega

end PropertyPath

/-- The segments of a property path, which has at least one. -/
def parsePath (path : String) : Except EvalError (List Segment) :=
  if path = "" then .error (.invalidPath path)
  else
    match PropertyPath.segments? true path.toList with
    | some segments => .ok segments
    | none => .error (.invalidPath path)

end NestedQuery
