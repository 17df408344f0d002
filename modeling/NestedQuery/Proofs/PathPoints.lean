/-
# Points in paths

A point in a text that says a query stands between two names of a path, the
path of an entity or of a sort term at any depth, or it stands in a payload,
which may be anything. Between two names it begins where the first one ends,
which is what the parser asks for. It does not ask where the second one
begins, so there may be blanks behind the point, though not in front of it.

The points of a phrase are those of its parts, so they are accounted for
phrase by phrase (`Grammar.PointsIn.append`).

Key definitions: `Query.Reads`, `Grammar.BetweenNames`, `Grammar.InPayload`,
`Grammar.PointsIn`.
Key theorems: `Grammar.Names.pointsIn`, `Grammar.IsQuery.pointsIn`,
`TakenApart.around_point`, `parse_points`.
-/
import NestedQuery.Proofs.Blanks
import NestedQuery.Proofs.Grammar.Exact

namespace NestedQuery

/-! ### The paths of a query -/

/-- The modifier sorts by the path. -/
def Modifier.SortsBy (m : Modifier) (path : String) : Prop :=
  ∃ terms, m = .sort terms ∧ ∃ term ∈ terms, path = term.property

/-- The entity has the path or sorts by it. -/
def Entity.Reads (entity : Entity) (path : String) : Prop :=
  path = entity.path ∨ ∃ m ∈ entity.modifiers, m.SortsBy path

/-- An entity of the query, at any depth, has the path or sorts by it. -/
def Query.Reads (query : Query) (path : String) : Prop :=
  ∃ entity ∈ Query.preorder query, entity.Reads path

namespace Grammar

variable {Paths Paths' : String → Prop} {before behind ts us : List Token} {dot : Token}

/-! ### The points of a phrase -/

/-- The point begins where a name ends and has a name behind it, and the two names are next to each
other in one of the paths. -/
def BetweenNames (Paths : String → Prop) (before : List Token) (dot : Token)
    (behind : List Token) : Prop :=
  ∃ init name next rest, before = init ++ [name] ∧ behind = next :: rest ∧
    name.kind ∈ Parser.nameKinds ∧ next.kind ∈ Parser.nameKinds ∧ Joins name dot ∧
    ∃ front back, Paths (".".intercalate (front ++ name.text :: next.text :: back))

/-- The point stands in the payload of a modifier that has no grammar of its own. -/
def InPayload (before : List Token) (dot : Token) (behind : List Token) : Prop :=
  ∃ init pipe word colon passed ahead rest,
    before = init ++ pipe :: word :: colon :: passed ∧ behind = ahead ++ rest ∧
    pipe.kind = .pipe ∧ word.kind = .identifier ∧ word.text ∉ knownWords ∧ colon.kind = .colon ∧
    Payload rest 0 (passed ++ dot :: ahead)

theorem BetweenNames.extend (h : BetweenNames Paths before dot behind) (init : List Token) :
    BetweenNames Paths (init ++ before) dot behind := by
  obtain ⟨init', name, next, rest, rfl, rfl, h⟩ := h
  exact ⟨init ++ init', name, next, rest, (List.append_assoc _ _ _).symm, rfl, h⟩

theorem BetweenNames.mono (h : BetweenNames Paths before dot behind)
    (hp : ∀ path, Paths path → Paths' path) : BetweenNames Paths' before dot behind := by
  obtain ⟨init, name, next, rest, hb, ha, hn, hx, hj, front, back, hpath⟩ := h
  exact ⟨init, name, next, rest, hb, ha, hn, hx, hj, front, back, hp _ hpath⟩

theorem InPayload.extend (h : InPayload before dot behind) (init : List Token) :
    InPayload (init ++ before) dot behind := by
  obtain ⟨init', pipe, word, colon, passed, ahead, rest, rfl, h⟩ := h
  exact ⟨init ++ init', pipe, word, colon, passed, ahead, rest, (List.append_assoc _ _ _).symm, h⟩

/-- Every point in these tokens stands between two names of one of the paths or in a payload. -/
def PointsIn (Paths : String → Prop) (ts behind : List Token) : Prop :=
  ∀ before dot after, ts = before ++ dot :: after → dot.kind = .dot →
    BetweenNames Paths before dot (after ++ behind) ∨ InPayload before dot (after ++ behind)

namespace PointsIn

theorem of_no_point (h : ∀ t ∈ ts, t.kind ≠ .dot) : PointsIn Paths ts behind := by
  rintro before dot after rfl hk
  exact absurd hk (h dot (by simp))

theorem mono (h : PointsIn Paths ts behind) (hp : ∀ path, Paths path → Paths' path) :
    PointsIn Paths' ts behind := by
  intro before dot after hsplit hk
  exact (h before dot after hsplit hk).imp_left fun hb => hb.mono hp

/-- The points of two phrases, one behind the other, are those of both. -/
theorem append (h : PointsIn Paths ts (us ++ behind)) (h' : PointsIn Paths us behind) :
    PointsIn Paths (ts ++ us) behind := by
  intro before dot after hsplit hk
  obtain ⟨passed, rfl, hus⟩ | ⟨ahead, rfl, hahead⟩ := List.append_eq_append_iff.1 hsplit
  · exact (h' passed dot after hus hk).imp (·.extend ts) (·.extend ts)
  · obtain ⟨rfl, hus⟩ | ⟨ahead, rfl, rfl⟩ := List.cons_eq_append_iff.1 hahead
    · have hhere := h' [] dot after hus hk
      exact hhere.imp (fun hb => by simpa using hb.extend before)
        fun hb => by simpa using hb.extend before
    · rw [List.append_assoc]
      exact h before dot ahead rfl hk

theorem cons {token : Token} (ht : token.kind ≠ .dot) (h : PointsIn Paths ts behind) :
    PointsIn Paths (token :: ts) behind :=
  append (of_no_point (List.forall_mem_singleton.2 ht)) h

end PointsIn

/-! ### Paths and modifiers -/

theorem ne_dot_of_nameKinds {token : Token} (h : token.kind ∈ Parser.nameKinds) :
    token.kind ≠ .dot := by
  intro hk
  rw [hk] at h
  exact absurd h (by decide)

theorem Names.exists_head {names : List String} (h : Names behind ts names) :
    ∃ name rest others, ts = name :: rest ∧ names = name.text :: others ∧
      name.kind ∈ Parser.nameKinds := by
  cases h with
  | last hn _ => exact ⟨_, _, _, rfl, rfl, hn⟩
  | dot hn _ _ => exact ⟨_, _, _, rfl, rfl, hn⟩

/-- The points of a path stand between its names. -/
theorem Names.pointsIn {names : List String} (h : Names behind ts names) (front : List String) :
    PointsIn (· = ".".intercalate (front ++ names)) ts behind := by
  induction h generalizing front with
  | last hn _ => exact .of_no_point (List.forall_mem_singleton.2 (ne_dot_of_nameKinds hn))
  | @dot name point tokens names hn hd h ih =>
    have hrest := ih (front ++ [name.text])
    rw [List.append_assoc, List.singleton_append] at hrest
    show PointsIn _ ([name, point] ++ tokens) behind
    refine PointsIn.append ?_ hrest
    obtain ⟨next, rest, others, rfl, rfl, hnext⟩ := h.exists_head
    intro before dot after hsplit hk
    rcases before with _ | ⟨first, _ | ⟨second, before⟩⟩
    · cases hsplit
      exact absurd hk (ne_dot_of_nameKinds hn)
    · cases hsplit
      exact .inl ⟨[], name, next, rest ++ behind, rfl, rfl, hn, hnext, hd, front, others, rfl⟩
    · simp at hsplit

theorem Path.pointsIn {path : String} (h : Path behind ts path) :
    PointsIn (· = path) ts behind := by
  obtain ⟨names, hnames, rfl⟩ := h
  exact hnames.pointsIn []

theorem Term.pointsIn {term : SortTerm} (h : Term behind ts term) :
    PointsIn (· = term.property) ts behind := by
  cases h with
  | bare hp _ => exact hp.pointsIn
  | directed hp hw =>
    exact PointsIn.append hp.pointsIn (.of_no_point (by simp [hw]))

theorem Terms.pointsIn {terms : List SortTerm} (h : Terms behind ts terms) :
    PointsIn (fun path => ∃ term ∈ terms, path = term.property) ts behind := by
  induction h with
  | last ht _ => exact ht.pointsIn.mono fun path hp => ⟨_, List.mem_cons_self, hp⟩
  | more ht hc _ ih =>
    refine PointsIn.append (ht.pointsIn.mono fun path hp => ⟨_, List.mem_cons_self, hp⟩)
      (.cons (by simp [hc]) (ih.mono ?_))
    rintro path ⟨term, hterm, hp⟩
    exact ⟨term, List.mem_cons_of_mem _ hterm, hp⟩

/-- The points of a modifier stand in the paths that it sorts by or in its payload. -/
theorem IsModifier.pointsIn {m : Modifier} {pipe : Token} (h : IsModifier behind ts m)
    (hp : pipe.kind = .pipe) : PointsIn m.SortsBy (pipe :: ts) behind := by
  cases h with
  | sort hw _ hc h =>
    refine .cons (by simp [hp]) (.cons (by simp [hw]) (.cons (by simp [hc]) (h.pointsIn.mono ?_)))
    exact fun path hpath => ⟨_, rfl, hpath⟩
  | @limit _ _ tokens _ _ hw _ hc h =>
    refine .of_no_point ?_
    have harguments : ∀ t ∈ tokens, t.kind ≠ .dot := ne_of_kinds h.kinds (by decide)
    simpa [hp, hw, hc] using harguments
  | randomize hw _ => exact .of_no_point (by simp [hp, hw])
  | bare hw _ _ => exact .of_no_point (by simp [hp, hw])
  | @payload word colon tokens hw ht hc h =>
    intro before dot after hsplit hk
    rcases before with _ | ⟨first, _ | ⟨second, _ | ⟨third, passed⟩⟩⟩
    · cases hsplit
      simp [hk] at hp
    · cases hsplit
      simp [hk] at hw
    · cases hsplit
      simp [hk] at hc
    · cases hsplit
      exact .inr ⟨[], pipe, word, colon, passed, after, behind, rfl, rfl, hp, hw, ht, hc, h⟩

theorem Modifiers.pointsIn {ms : List Modifier} (h : Modifiers behind ts ms) :
    PointsIn (fun path => ∃ m ∈ ms, m.SortsBy path) ts behind := by
  induction h with
  | done _ => exact .of_no_point (List.forall_mem_nil _)
  | @more pipe tokens rest m ms hp hm _ ih =>
    show PointsIn _ (pipe :: tokens ++ rest) behind
    refine PointsIn.append ((hm.pointsIn hp).mono ?_) (ih.mono ?_)
    · exact fun path hpath => ⟨m, List.mem_cons_self, hpath⟩
    · rintro path ⟨m', hm', hpath⟩
      exact ⟨m', List.mem_cons_of_mem _ hm', hpath⟩

/-! ### Entities -/

theorem Heading.pointsIn {entity : Entity} (h : Heading behind ts entity) :
    PointsIn entity.Reads ts behind := by
  cases h with
  | @mk ps is as ms path identifier aliasName modifiers hp hi ha hm =>
    let entity : Entity := ⟨aliasName.getD path, path, identifier, none, modifiers⟩
    have hpath : PointsIn entity.Reads ps (is ++ as ++ ms ++ behind) :=
      hp.pointsIn.mono fun path h => .inl h
    have hmodifiers : PointsIn entity.Reads ms behind := hm.pointsIn.mono fun path h => .inr h
    have hidentifier : ∀ t ∈ is, t.kind ≠ .dot := ne_of_kinds hi.kinds (by decide)
    have halias : ∀ t ∈ as, t.kind ≠ .dot := ne_of_kinds ha.kinds (by decide)
    rw [List.append_assoc, List.append_assoc] at hpath
    exact ((hpath.append (.of_no_point hidentifier)).append (.of_no_point halias)).append hmodifiers

theorem mem_preorder_self (entity : Entity) : entity ∈ entity.preorder := by
  obtain ⟨aliasName, path, identifier, children, modifiers⟩ := entity
  cases children <;> simp [Entity.preorder]

theorem mem_preorder_nested {entity e : Entity} {children : Query}
    (h : e ∈ Query.preorder children) :
    e ∈ Entity.preorder { entity with children := some children } := by
  rw [Entity.preorder]
  exact List.mem_cons_of_mem _ h

mutual

theorem IsEntity.pointsIn {behind ts : List Token} {entity : Entity} :
    IsEntity behind ts entity →
      PointsIn (fun path => ∃ e ∈ Entity.preorder entity, e.Reads path) ts behind
  | .bare h _ => h.pointsIn.mono fun path hpath => ⟨entity, mem_preorder_self entity, hpath⟩
  | @IsEntity.nested behind tokens inner opening closing entity children h ho hq hc => by
    let nested : Entity := { entity with children := some children }
    have hheading : PointsIn (fun path => ∃ e ∈ nested.preorder, e.Reads path) tokens
        (opening :: inner ++ ([closing] ++ behind)) :=
      h.pointsIn.mono fun path hpath => ⟨nested, mem_preorder_self nested, hpath⟩
    have hchildren : PointsIn (fun path => ∃ e ∈ nested.preorder, e.Reads path) inner
        ([closing] ++ behind) :=
      (IsQuery.pointsIn hq).mono fun path ⟨e, he, hpath⟩ => ⟨e, mem_preorder_nested he, hpath⟩
    exact (hheading.append (.cons (by simp [ho]) hchildren)).append (.of_no_point (by simp [hc]))

theorem IsQuery.pointsIn {behind ts : List Token} {query : Query} :
    IsQuery behind ts query → PointsIn query.Reads ts behind
  | @IsQuery.last _ _ entity h _ => by
    refine (IsEntity.pointsIn h).mono fun path ⟨e, he, hpath⟩ => ⟨e, ?_, hpath⟩
    exact List.mem_append_left _ he
  | @IsQuery.more behind tokens rest comma entity query h hc hq => by
    have hfirst : PointsIn (Query.Reads (entity :: query)) tokens (comma :: rest ++ behind) :=
      (IsEntity.pointsIn h).mono fun path ⟨e, he, hpath⟩ => ⟨e, List.mem_append_left _ he, hpath⟩
    have hothers : PointsIn (Query.Reads (entity :: query)) rest behind :=
      (IsQuery.pointsIn hq).mono fun path ⟨e, he, hpath⟩ => ⟨e, List.mem_append_right _ he, hpath⟩
    exact hfirst.append (.cons (by simp [hc]) hothers)

end

end Grammar

/-! ### The characters around a point -/

open Text Grammar

theorem Spelling.eq_point {w text : List Char} {kind : Kind} (h : Spelling w kind text)
    (hk : kind = .dot) : w = ['.'] := by
  cases h with
  | word _ => exact absurd (hk ▸ Kind.ofWord_mem _) (by decide)
  | @punctuation c kind hp =>
    subst hk
    unfold Kind.punctuation? at hp
    split at hp <;> cases hp
    rfl
  | _ => cases hk

theorem Token.WrittenAs.eq_name {token : Token} {w : List Char} (h : token.WrittenAs w)
    (hk : token.kind ∈ Parser.nameKinds) : w = token.text.toList := by
  refine (h.verbatim fun hs => ?_).1
  rw [hs] at hk
  exact absurd hk (by decide)

/-- A name, a point that begins where it ends, and the next name: there are no blanks in front of
the point, and nothing but blanks behind it. -/
theorem TakenApart.around_point {before behind : List Piece} {name dot next : Piece} {p : Nat}
    {cs lead : List Char} (h : TakenApart p cs lead (before ++ name :: dot :: next :: behind))
    (hname : name.token.kind ∈ Parser.nameKinds) (hnext : next.token.kind ∈ Parser.nameKinds)
    (hj : Joins name.token dot.token) :
    ∃ front gap back, cs = front ++ (name.token.text.toList ++ '.' :: (gap ++
        (next.token.text.toList ++ back))) ∧
      Blank gap ∧ name.token.position = p + front.length ∧
      next.token.position = dot.token.position + 1 + gap.length := by
  induction before generalizing p cs lead with
  | nil =>
    rw [List.nil_append] at h
    obtain ⟨hdot, hgap⟩ := (h.joins_iff hname).1 hj
    have hwritten : name.written = name.token.text.toList :=
      (h.written name (by simp)).eq_name hname
    have hpoint : dot.written = ['.'] := (h.written dot (by simp)).spelling.eq_point hdot
    have hwritten' : next.written = next.token.text.toList :=
      (h.written next (by simp)).eq_name hnext
    refine ⟨lead, dot.gap, next.gap ++ behind.flatMap Piece.chars, ?_,
      h.gap_blank dot (by simp), h.head_position, ?_⟩
    · rw [h.chars]
      simp [Piece.chars, hgap, hwritten, hpoint, hwritten']
    · have hat := h.tail.head_position
      have hnextAt := h.tail.tail.head_position
      rw [hpoint] at hnextAt
      rw [hnextAt, hat]
      rfl
  | cons piece before ih =>
    rw [List.cons_append] at h
    obtain ⟨front, gap, back, hcs, hgap, hat, hnextAt⟩ := ih h.tail
    refine ⟨lead ++ (piece.written ++ front), gap, back, ?_, hgap, ?_, hnextAt⟩
    · rw [h.chars, List.flatMap_cons, Piece.chars, List.append_assoc, hcs, List.append_assoc,
        List.append_assoc]
    · rw [hat, List.length_append, List.length_append]
      omega

/-- **A point in a path begins where the name before it ends.** Each point among the tokens of a
text that says a query stands in a payload or between two names that are next to each other in a
path of the query: the path of an entity or of a sort term, at any depth. Then there are no blanks
between the first name and the point, and nothing but blanks between the point and the second
name. -/
theorem parse_points {text : String} {query : Query} (h : parse text = .ok query) :
    ∃ tokens, scan text = .ok tokens ∧
      ∀ before dot behind, tokens = before ++ dot :: behind → dot.kind = .dot →
        InPayload before dot behind ∨
        ∃ init name next rest, before = init ++ [name] ∧ behind = next :: rest ∧
          name.kind ∈ Parser.nameKinds ∧ next.kind ∈ Parser.nameKinds ∧
          (∃ front back, query.Reads (".".intercalate (front ++ name.text :: next.text :: back))) ∧
          dot.position = name.stop ∧
          ∃ front gap back, text.toList = front ++ (name.text.toList ++ '.' :: (gap ++
              (next.text.toList ++ back))) ∧
            Blank gap ∧ name.position = front.length ∧
            next.position = dot.position + 1 + gap.length := by
  obtain ⟨tokens, hs, hquery⟩ := parse_eq_ok_iff.1 h
  refine ⟨tokens, hs, fun before dot behind hsplit hk => ?_⟩
  have hpoints : PointsIn query.Reads tokens [] := by
    obtain ⟨rfl, -⟩ | ⟨hq, -⟩ := hquery
    · exact .of_no_point (List.forall_mem_nil _)
    · exact hq.pointsIn
  have hpoint := hpoints before dot behind hsplit hk
  rw [List.append_nil] at hpoint
  refine hpoint.symm.imp_right ?_
  rintro ⟨init, name, next, rest, rfl, rfl, hname, hnext, hj, hpath⟩
  refine ⟨init, name, next, rest, rfl, rfl, hname, hnext, hpath, hj.2, ?_⟩
  obtain ⟨lead, pieces, ht, rfl, -⟩ := scan_eq_ok_iff_pieces.1 hs
  rw [List.append_assoc, List.singleton_append, List.map_eq_append_iff] at hsplit
  obtain ⟨front, _, rfl, rfl, hname'⟩ := hsplit
  obtain ⟨name, _, rfl, rfl, hdot'⟩ := List.map_eq_cons_iff.1 hname'
  obtain ⟨dot, _, rfl, rfl, hnext'⟩ := List.map_eq_cons_iff.1 hdot'
  obtain ⟨next, _, rfl, rfl, rfl⟩ := List.map_eq_cons_iff.1 hnext'
  simpa using ht.around_point hname hnext hj

/-- A point with a blank behind it in a sub-query. -/
theorem parse_points_spaced :
    let tokens : List Token := [⟨.identifier, "x", 0⟩, ⟨.openCurly, "\x7b", 1⟩,
      ⟨.identifier, "a", 2⟩, ⟨.dot, ".", 3⟩, ⟨.identifier, "b", 5⟩, ⟨.closeCurly, "\x7d", 6⟩]
    ∃ query, parse "x\x7ba. b\x7d" = .ok query ∧ scan "x\x7ba. b\x7d" = .ok tokens ∧
      (∃ front back, query.Reads (".".intercalate (front ++ "a" :: "b" :: back))) ∧
      ∃ front gap back, "x\x7ba. b\x7d".toList = front ++ ("a".toList ++ '.' :: (gap ++
          ("b".toList ++ back))) ∧ Blank gap ∧ 2 = front.length ∧ 5 = 3 + 1 + gap.length := by
  intro tokens
  have hparse : parse "x\x7ba. b\x7d" =
      .ok [⟨"x", "x", none, some [.ofPath "a.b"], []⟩] := by
    set_option maxRecDepth 2000 in cbv
  have hscan : scan "x\x7ba. b\x7d" = .ok tokens := by
    set_option maxRecDepth 2000 in cbv
  obtain ⟨tokens', hscan', hpoints⟩ := parse_points hparse
  obtain rfl : tokens = tokens' := Except.ok.inj (hscan.symm.trans hscan')
  have hpayload : ¬ InPayload (tokens.take 3) ⟨.dot, ".", 3⟩ (tokens.drop 4) := by
    rintro ⟨init, pipe, word, colon, passed, ahead, rest, hsplit, -, hpipe, -⟩
    have hmem : pipe ∈ tokens.take 3 := by
      rw [hsplit]
      simp
    have hnone : ∀ t ∈ tokens.take 3, t.kind ≠ .pipe := by decide
    exact hnone pipe hmem hpipe
  obtain ⟨init, name, next, rest, hbefore, hbehind, -, -, hreads, -, hchars⟩ :=
    (hpoints _ _ _ rfl rfl).resolve_left hpayload
  have hsplit : tokens.take 2 ++ [⟨.identifier, "a", 2⟩] = init ++ [name] := hbefore
  obtain ⟨-, hname⟩ := List.append_inj' hsplit rfl
  cases hname
  cases hbehind
  exact ⟨_, hparse, hscan, hreads, hchars⟩

/-- The point joins two names with a blank between it and the second one. -/
theorem parse_blank_behind_point :
    let name : Token := ⟨.identifier, "a", 0⟩
    let dot : Token := ⟨.dot, ".", 1⟩
    let next : Token := ⟨.identifier, "b", 3⟩
    parse "a. b" = .ok [.ofPath "a.b"] ∧ scan "a. b" = .ok [name, dot, next] ∧
      dot.stop < next.position := by
  refine ⟨?_, ?_, by decide⟩
  all_goals set_option maxRecDepth 2000 in cbv

end NestedQuery
