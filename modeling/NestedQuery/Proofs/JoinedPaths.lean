/-
# Paths behind paths

Two property paths with a point between them are one, and so they are without
the point if the second begins with a bracket (`parsePath_joined`). Its
segments are those of the first and then those of the second, and following
them is to follow the first ones and go on with the others from what they
found (`Value.follow_append`).

So a lenient accessor reads the joined path as it reads one path behind the
other: where the first finds nothing, it goes on from `null`, which has no
properties. A strict accessor stops there and names the whole path. What no
accessor gets past is a collection that fails (`Value.Breaks`).

Key definition: `Value.Breaks`.
Key theorems: `parsePath_joined`, `Value.follow_append`,
`Value.follow_eq_error_iff`, `Accessor.getValue_joined`.
-/
import NestedQuery.Proofs.PathSpelling

namespace NestedQuery

open PropertyPath

/-! ### Joining paths -/

namespace PropertyPath.Spells

variable {es fs : List Element} {cs ds : List Char}

theorem append_point (h : Spells es cs) (h' : Spells fs ds) :
    Spells (es ++ fs) (cs ++ '.' :: ds) := by
  induction h with
  | last he => exact .point he h'
  | point he _ ih =>
    rw [List.append_assoc]
    exact .point he ih
  | bracket he _ ih =>
    rw [List.append_assoc]
    exact .bracket he ih

theorem append_bracket {key : String} (h : Spells es cs)
    (h' : Spells (.bracketed key :: fs) ds) : Spells (es ++ .bracketed key :: fs) (cs ++ ds) := by
  induction h with
  | last he => exact .bracket he h'
  | point he _ ih =>
    rw [List.append_assoc]
    exact .point he ih
  | bracket he _ ih =>
    rw [List.append_assoc]
    exact .bracket he ih

end PropertyPath.Spells

/-- What may stand between two paths: a point, or nothing in front of a bracket. -/
def Joint (joint path : String) : Prop :=
  joint = "." ∨ joint = "" ∧ path.toList.head? = some '['

/-- Two paths that are joined are read as one behind the other. -/
theorem parsePath_joined {p q joint : String} {ps qs : List Segment} (hp : parsePath p = .ok ps)
    (hq : parsePath q = .ok qs) (hj : Joint joint q) :
    parsePath (p ++ joint ++ q) = .ok (ps ++ qs) := by
  obtain ⟨es, hes, hps⟩ := parsePath_eq_ok_iff.1 hp
  obtain ⟨fs, hfs, hqs⟩ := parsePath_eq_ok_iff.1 hq
  refine parsePath_eq_ok_iff.2 ⟨es ++ fs, ?_, List.rel_append hps hqs⟩
  obtain rfl | ⟨rfl, hbracket⟩ := hj
  · simpa [String.toList_append] using hes.append_point hfs
  · obtain ⟨f, fs', c, cs, rfl, hchars, -, hopening⟩ := hfs.exists_cons
    rw [hchars, List.head?_cons, Option.some.injEq] at hbracket
    cases f with
    | bare name => cases hopening.2 hbracket
    | bracketed key => simpa [String.toList_append] using hes.append_bracket hfs

/-! ### Following segments -/

namespace Value

/-- On the way along these segments there is a collection that fails with this error. -/
def Breaks (v : Value) (segments : List Segment) (e : EvalError) : Prop :=
  ∃ front segment behind handle, segments = front ++ segment :: behind ∧
    v.follow front = .ok (some (.collection handle (.error e)))

/-- The others are followed from what the first ones find. -/
theorem follow_append (ps qs : List Segment) (v : Value) :
    v.follow (ps ++ qs) =
      (v.follow ps).bind fun found => found.elim (.ok none) fun w => w.follow qs := by
  induction ps generalizing v with
  | nil => rfl
  | cons segment ps ih =>
    rw [List.cons_append, follow, follow]
    cases v.read segment with
    | error e => rfl
    | ok found =>
      cases found with
      | none => rfl
      | some w => exact ih w

theorem follow_null {segments : List Segment} (h : segments ≠ []) :
    Value.null.follow segments = .ok none := by
  obtain ⟨segment, segments, rfl⟩ := List.exists_cons_of_ne_nil h
  rfl

/-- Only a collection that fails cannot be read. -/
theorem read_eq_error_iff {v : Value} {segment : Segment} {e : EvalError} :
    v.read segment = .error e ↔ ∃ handle, v = .collection handle (.error e) := by
  constructor
  · intro h
    cases v with
    | collection handle outcome =>
      rw [read, map_eq_error_iff] at h
      exact ⟨handle, by rw [h]⟩
    | _ => cases h
  · rintro ⟨handle, rfl⟩
    rfl

/-- Following fails exactly with the error of a collection on the way. -/
theorem follow_eq_error_iff {segments : List Segment} {v : Value} {e : EvalError} :
    v.follow segments = .error e ↔ v.Breaks segments e := by
  constructor
  · intro h
    induction segments generalizing v with
    | nil => cases h
    | cons segment segments ih =>
      rw [follow] at h
      split at h
      · next hread =>
        cases h
        obtain ⟨handle, rfl⟩ := read_eq_error_iff.1 hread
        exact ⟨[], segment, segments, handle, rfl, rfl⟩
      · cases h
      · next w hread =>
        obtain ⟨front, s, behind, handle, rfl, hfront⟩ := ih h
        refine ⟨segment :: front, s, behind, handle, rfl, ?_⟩
        rw [follow, hread]
        exact hfront
  · rintro ⟨front, segment, behind, handle, rfl, hfront⟩
    rw [follow_append, hfront]
    rfl

/-- The collection is met along the first segments, or from what these find. -/
theorem breaks_append_iff {ps qs : List Segment} {v : Value} {e : EvalError} :
    v.Breaks (ps ++ qs) e ↔ v.Breaks ps e ∨ ∃ w, v.follow ps = .ok (some w) ∧ w.Breaks qs e := by
  simp only [← follow_eq_error_iff, follow_append]
  rcases v.follow ps with e' | _ | w <;> simp [Except.bind]

end Value

/-! ### Reading joined paths -/

namespace Accessor

variable {accessor : Accessor} {v : Value} {path : String} {segments : List Segment}

/-- Reading a path is following its segments. -/
theorem getValue_of_parsePath (h : parsePath path = .ok segments) :
    accessor.getValue v path =
      (v.follow segments).bind fun found => found.elim (accessor.missing path) .ok := by
  rw [getValue, h]
  dsimp only
  cases v.follow segments with
  | error e => rfl
  | ok found => cases found <;> rfl

theorem missing_of_lenient (h : accessor.strict = false) (path : String) :
    accessor.missing path = .ok .null := by
  rw [missing, h]
  rfl

theorem missing_of_strict (h : accessor.strict = true) (path : String) :
    accessor.missing path = .error (.noSuchProperty path) := by
  rw [missing, h]
  rfl

/-- A lenient accessor goes on from what the first path reads. -/
theorem getValue_joined_of_lenient {p q whole : String} {ps qs : List Segment}
    (hp : parsePath p = .ok ps) (hq : parsePath q = .ok qs)
    (hwhole : parsePath whole = .ok (ps ++ qs)) (hl : accessor.strict = false) :
    accessor.getValue v whole = (accessor.getValue v p).bind (accessor.getValue · q) := by
  have hread (w : Value) : accessor.getValue w q =
      (w.follow qs).bind fun found => found.elim (.ok .null) .ok := by
    rw [getValue_of_parsePath hq, missing_of_lenient hl]
  rw [getValue_of_parsePath hwhole, getValue_of_parsePath hp, Value.follow_append,
    missing_of_lenient hl, missing_of_lenient hl]
  cases v.follow ps with
  | error e => rfl
  | ok found =>
    cases found with
    | some w => exact (hread w).symm
    | none =>
      show Except.ok Value.null = accessor.getValue .null q
      rw [hread, Value.follow_null (ne_nil_of_parsePath hq)]
      rfl

/-- What a strict accessor reads by a path is there. -/
theorem getValue_eq_ok_iff_of_strict {w : Value} (h : parsePath path = .ok segments)
    (hs : accessor.strict = true) :
    accessor.getValue v path = .ok w ↔ v.follow segments = .ok (some w) := by
  rw [getValue_of_parsePath h, missing_of_strict hs]
  rcases v.follow segments with e | _ | u <;> simp [Except.bind]

theorem getValue_of_follow {w : Value} (h : parsePath path = .ok segments)
    (hw : v.follow segments = .ok (some w)) : accessor.getValue v path = .ok w := by
  rw [getValue_of_parsePath h, hw]
  rfl

theorem getValue_of_breaks {e : EvalError} (h : parsePath path = .ok segments)
    (hb : v.Breaks segments e) : accessor.getValue v path = .error e := by
  rw [getValue_of_parsePath h, Value.follow_eq_error_iff.2 hb]
  rfl

end Accessor

/-- **Reading by a path is compositional.** Two paths with a point between them, or without one if
the second begins with a bracket, are one path. A collection that fails on the way of their segments
fails both the joined path and the two, one behind the other, with its error. A lenient accessor
reads the joined path as it reads the second from what the first one reads. A strict accessor reads
a value by it exactly if both paths read one, and the second that value; otherwise, if no collection
fails, it names the whole path. -/
theorem Accessor.getValue_joined {p q joint : String} {ps qs : List Segment}
    (hp : parsePath p = .ok ps) (hq : parsePath q = .ok qs) (hj : Joint joint q) (target : Value) :
    let whole := p ++ joint ++ q
    let inSteps (accessor : Accessor) := (accessor.getValue target p).bind (accessor.getValue · q)
    (∀ (accessor : Accessor) e, target.Breaks (ps ++ qs) e →
      accessor.getValue target whole = .error e ∧ inSteps accessor = .error e) ∧
    (∀ accessor : Accessor, accessor.strict = false →
      accessor.getValue target whole = inSteps accessor) ∧
    ∀ accessor : Accessor, accessor.strict = true →
      (∀ v, accessor.getValue target whole = .ok v ↔
        ∃ w, accessor.getValue target p = .ok w ∧ accessor.getValue w q = .ok v) ∧
      ((∀ v, accessor.getValue target whole ≠ .ok v) → (∀ e, ¬ target.Breaks (ps ++ qs) e) →
        accessor.getValue target whole = .error (.noSuchProperty whole)) := by
  intro whole inSteps
  have hwhole : parsePath whole = .ok (ps ++ qs) := parsePath_joined hp hq hj
  refine ⟨fun accessor e hb => ⟨getValue_of_breaks hwhole hb, ?_⟩,
    fun accessor hl => getValue_joined_of_lenient hp hq hwhole hl,
    fun accessor hs => ⟨fun v => ?_, fun hnone hfine => ?_⟩⟩
  · show (accessor.getValue target p).bind (accessor.getValue · q) = .error e
    obtain hb | ⟨w, hw, hb⟩ := Value.breaks_append_iff.1 hb
    · rw [getValue_of_breaks hp hb]
      rfl
    · rw [getValue_of_follow hp hw]
      exact getValue_of_breaks hq hb
  · simp only [getValue_eq_ok_iff_of_strict hwhole hs, getValue_eq_ok_iff_of_strict hp hs,
      getValue_eq_ok_iff_of_strict hq hs]
    rw [Value.follow_append]
    rcases target.follow ps with e | _ | w <;> simp [Except.bind]
  · cases hfollow : target.follow (ps ++ qs) with
    | error e => exact absurd (Value.follow_eq_error_iff.1 hfollow) (hfine e)
    | ok found =>
      cases found with
      | some v => exact absurd ((getValue_eq_ok_iff_of_strict hwhole hs).2 hfollow) (hnone v)
      | none =>
        rw [getValue_of_parsePath hwhole, hfollow]
        exact missing_of_strict hs whole

/-- A key in brackets behind a name, a collection that fails on the way, and a name that is
missing. -/
theorem Accessor.getValue_joined_places :
    let broken : EvalError := .dataSource "source" "broken"
    let target : Value := .object [("a", .object [("first name", .integer 1)]),
      ("b", .collection 0 (.error broken))]
    let strict : Accessor := ⟨true⟩
    let lenient : Accessor := ⟨false⟩
    Joint "" "[first name]" ∧ Joint "." "x" ∧
      strict.getValue target "a[first name]" = .ok (.integer 1) ∧
      lenient.getValue target "b.x" = .error broken ∧
      lenient.getValue target "c.x" = .ok .null ∧
      strict.getValue target "c.x" = .error (.noSuchProperty "c.x") := by
  intro broken target strict lenient
  have hbracket : Joint "" "[first name]" := .inr ⟨rfl, rfl⟩
  have hpoint : Joint "." "x" := .inl rfl
  have ha : parsePath "a" = .ok [.field "a"] := parsePath_of_isName (by decide)
  have hb : parsePath "b" = .ok [.field "b"] := parsePath_of_isName (by decide)
  have hc : parsePath "c" = .ok [.field "c"] := parsePath_of_isName (by decide)
  have hx : parsePath "x" = .ok [.field "x"] := parsePath_of_isName (by decide)
  have hne : "first name" ≠ "" := by decide
  have hkey : parsePath "[first name]" = .ok [.field "first name"] :=
    parsePath_bracketed hne (forall_inBrackets_iff.2 (by decide))
  refine ⟨hbracket, hpoint, ?_, ?_, ?_, ?_⟩
  · have hinner : strict.getValue target "a" = .ok (.object [("first name", .integer 1)]) :=
      getValue_of_follow ha rfl
    exact (((getValue_joined ha hkey hbracket target).2.2 strict rfl).1 _).2
      ⟨_, hinner, getValue_of_follow hkey rfl⟩
  · have hbreaks : target.Breaks ([.field "b"] ++ [.field "x"]) broken :=
      ⟨[.field "b"], .field "x", [], 0, rfl, rfl⟩
    exact ((getValue_joined hb hx hpoint target).1 lenient broken hbreaks).1
  · have hnull : lenient.getValue target "c" = .ok .null := by
      rw [getValue_of_parsePath hc]
      rfl
    refine ((getValue_joined hc hx hpoint target).2.1 lenient rfl).trans ?_
    show (lenient.getValue target "c").bind (lenient.getValue · "x") = .ok .null
    rw [hnull]
    show lenient.getValue .null "x" = .ok .null
    rw [getValue_of_parsePath hx]
    rfl
  · obtain ⟨hfound, hmissing⟩ := (getValue_joined hc hx hpoint target).2.2 strict rfl
    refine hmissing (fun v hv => ?_) fun e he => ?_
    · obtain ⟨w, hw, -⟩ := (hfound v).1 hv
      cases (getValue_eq_ok_iff_of_strict hc rfl).1 hw
    · cases Value.follow_eq_error_iff.2 he

end NestedQuery
