/-
# Writing tokens and reading them back

Any sequence of tokens can be written, each with one blank between it and the
next. A string is written between quotes of either style. The quote of that
style and the backslash are escaped in it; line feeds, tabs, carriage returns
and the other quote may be escaped or not, each one as one likes. All other
tokens are written as their texts. Scanning gives back the kinds and the
texts, and it does so only for texts that tokens of these kinds can carry
(`scan_writeTokens_iff`).

Key definitions: `Kind.Carries`, `LiteralStyle`, `Draft`, `writeTokens`.
Key theorems: `LiteralStyle.content_body`, `layout_writeTokens`,
`scan_writeTokens_iff`.
-/
import NestedQuery.Proofs.Render.RoundTrip

namespace NestedQuery

/-- A token of this kind can have this text. -/
def Kind.Carries : Kind → String → Prop
  | identifier, text => IsIdentifier text
  | asKeyword, text => text = "as"
  | nullKeyword, text => text = "null"
  | integer, text => IsDigits text.toList ∧ Numeral.value text.toList < wordSize
  | float, text => ∃ whole digits, IsDigits whole ∧ IsDigits digits ∧
      text.toList = whole ++ '.' :: digits
  | string, _ => True
  | kind, text => ∃ c, punctuation? c = some kind ∧ text = String.ofList [c]

/-! ### String literals -/

/-- The letter that stands for a character behind a backslash, if there is one. -/
def escapeLetter? : Char → Option Char
  | '\n' => some 'n'
  | '\t' => some 't'
  | '\r' => some 'r'
  | '"' => some '"'
  | '\'' => some '\''
  | '\\' => some '\\'
  | _ => none

theorem unescape?_of_escapeLetter? {c e : Char} (h : escapeLetter? c = some e) :
    unescape? e = some c := by
  unfold escapeLetter? at h
  split at h
  all_goals first
    | cases h; rfl
    | cases h

/-- How a string is written: between which quotes, and which of the characters that may be
escaped, told apart by their places in the text, are so. -/
structure LiteralStyle where
  quote : Char := '"'
  quote_eq : quote = '"' ∨ quote = '\'' := by decide
  escapes : Nat → Bool := fun _ => true

namespace LiteralStyle

variable (style : LiteralStyle)

/-- The character at this place of a text, as it is written. -/
def charsAt (place : Nat) (c : Char) : List Char :=
  match escapeLetter? c with
  | some e =>
    if c = style.quote ∨ c = '\\' ∨ style.escapes place = true then ['\\', e] else [c]
  | none => [c]

/-- The text from this place on, as it is written between the quotes. -/
def body : Nat → List Char → List Char
  | _, [] => []
  | place, c :: cs => style.charsAt place c ++ body (place + 1) cs

/-- A text between quotes. -/
def literal (text : String) : List Char :=
  style.quote :: (style.body 0 text.toList ++ [style.quote])

/-- A character without an escape of its own is neither a quote nor the backslash. -/
theorem plain_of_escapeLetter? {c : Char} (h : escapeLetter? c = none) :
    c ≠ style.quote ∧ c ≠ '\\' := by
  constructor
  · rintro rfl
    rcases style.quote_eq with hq | hq <;> rw [hq] at h <;> cases h
  · rintro rfl
    cases h

theorem content_charsAt {cs text : List Char} (h : Content style.quote cs text) (place : Nat)
    (c : Char) : Content style.quote (style.charsAt place c ++ cs) (c :: text) := by
  unfold charsAt
  split
  · next e he =>
    by_cases hc : c = style.quote ∨ c = '\\' ∨ style.escapes place = true
    · rw [if_pos hc]
      exact .escaped (unescape?_of_escapeLetter? he) h
    · rw [if_neg hc]
      simp only [not_or] at hc
      exact .plain hc.1 hc.2.1 h
  · next hc =>
    obtain ⟨hquote, hbackslash⟩ := style.plain_of_escapeLetter? hc
    exact .plain hquote hbackslash h

/-- In every style, what is written between the quotes denotes the text. -/
theorem content_body : ∀ (place : Nat) (text : List Char),
    Content style.quote (style.body place text) text
  | _, [] => .nil
  | place, c :: text => style.content_charsAt (content_body (place + 1) text) place c

theorem spelling_literal (text : String) : Spelling (style.literal text) .string text.toList :=
  .string style.quote_eq (style.content_body 0 text.toList)

end LiteralStyle

/-! ### Single tokens -/

/-- What is spelled carries its text. -/
theorem Kind.carries_of_spelling {w text : List Char} {kind : Kind} (h : Spelling w kind text) :
    kind.Carries (String.ofList text) := by
  cases h with
  | word hw =>
    have hname : IsName (String.ofList w) := by rwa [IsName, String.toList_ofList]
    unfold ofWord
    split
    · next has => exact has
    · next has =>
      split
      · next hnull => exact hnull
      · next hnull => exact ⟨hname, has, hnull⟩
  | integer hd hv => exact ⟨by rwa [String.toList_ofList], by rwa [String.toList_ofList]⟩
  | float hw hd => exact ⟨_, _, hw, hd, String.toList_ofList⟩
  | string _ _ => trivial
  | @punctuation c kind hp =>
    have hmem := not_mem_of_punctuation? hp
    cases kind <;> first
      | exact absurd (by decide) hmem
      | exact ⟨c, hp, rfl⟩

theorem carries_of_mem_scan {text : String} {tokens : List Token} (h : scan text = .ok tokens) :
    ∀ t ∈ tokens, t.kind.Carries t.text := by
  intro t ht
  obtain ⟨w, hw⟩ := spelling_of_mem_scanFrom h t ht
  have hcarries := Kind.carries_of_spelling hw
  rwa [String.ofList_toList] at hcarries

/-- A token to be written, with the style for the case that it is a string. -/
structure Draft where
  kind : Kind
  text : String
  style : LiteralStyle := {}

/-- The characters that the token is written with. -/
def Draft.chars (draft : Draft) : List Char :=
  if draft.kind = .string then draft.style.literal draft.text else draft.text.toList

/-- All but strings are written as their text. -/
theorem Draft.chars_of_ne {draft : Draft} (h : draft.kind ≠ .string) :
    draft.chars = draft.text.toList := if_neg h

theorem Draft.spelling_chars {draft : Draft} (h : draft.kind.Carries draft.text) :
    Spelling draft.chars draft.kind draft.text.toList := by
  obtain ⟨kind, text, style⟩ := draft
  dsimp only at h ⊢
  by_cases hk : kind = .string
  · subst hk
    exact style.spelling_literal text
  · rw [chars_of_ne hk]
    dsimp only
    cases kind with
    | integer => exact .integer h.1 h.2
    | float =>
      obtain ⟨whole, digits, hw, hd, htext⟩ := h
      rw [htext]
      exact .float hw hd
    | string => exact absurd rfl hk
    | identifier =>
      have hs := Spelling.word h.1
      rwa [String.ofList_toList, ofWord_of_isIdentifier h] at hs
    | asKeyword =>
      subst h
      exact .word (by decide)
    | nullKeyword =>
      subst h
      exact .word (by decide)
    | _ =>
      obtain ⟨c, hc, rfl⟩ := h
      rw [String.toList_ofList]
      exact .punctuation hc

/-! ### Sequences of tokens -/

/-- The text in which the tokens stand one behind the other, with a blank between them. -/
def writeTokens (drafts : List Draft) : String :=
  " ".intercalate (drafts.map fun draft => String.ofList draft.chars)

/-- What a token says, wherever it stands. -/
def Token.content (token : Token) : Kind × String := (token.kind, token.text)

/-- What the token is to say. -/
def Draft.content (draft : Draft) : Kind × String := (draft.kind, draft.text)

/-- A written token in front of what does not prolong it. -/
theorem Draft.layout {draft : Draft} (h : draft.kind.Carries draft.text) {p : Nat}
    {cs : List Char} {ts : List Token} (he : Ends draft.kind cs)
    (hl : Layout (p + draft.chars.length) cs ts) :
    Layout p (draft.chars ++ cs) (⟨draft.kind, draft.text, p⟩ :: ts) := by
  have hlayout := Layout.token blank_nil (spelling_chars h) he hl
  rwa [String.ofList_toList] at hlayout

/-- What is written is laid out as tokens that say what was to be written. -/
theorem layout_writeTokens : ∀ {drafts : List Draft} (p : Nat),
    (∀ draft ∈ drafts, draft.kind.Carries draft.text) →
    ∃ tokens, Layout p (writeTokens drafts).toList tokens ∧
      tokens.map Token.content = drafts.map Draft.content
  | [], p, _ => ⟨[], .done blank_nil, rfl⟩
  | [draft], p, h => by
    have hlayout : Layout p (draft.chars ++ []) [⟨draft.kind, draft.text, p⟩] :=
      draft.layout (h draft List.mem_cons_self) (ends_nil _) (.done blank_nil)
    refine ⟨[⟨draft.kind, draft.text, p⟩], ?_, rfl⟩
    simpa [writeTokens] using hlayout
  | draft :: other :: drafts, p, h => by
    have hblank : Blank [' '] := by decide
    obtain ⟨hfirst, hothers⟩ := List.forall_mem_cons.1 h
    obtain ⟨tokens, htokens, hcontent⟩ :=
      layout_writeTokens (p + draft.chars.length + 1) hothers
    have hends : Ends draft.kind (' ' :: (writeTokens (other :: drafts)).toList) :=
      Ends.append (ends_nil _) (separates_of_isBlank rfl).head
    have htext : (writeTokens (draft :: other :: drafts)).toList =
        draft.chars ++ ' ' :: (writeTokens (other :: drafts)).toList := by
      unfold writeTokens
      rw [List.map_cons, List.map_cons, toList_intercalate_cons (c := ' ') rfl,
        String.toList_ofList]
    refine ⟨⟨draft.kind, draft.text, p⟩ :: tokens, ?_, ?_⟩
    · rw [htext]
      exact draft.layout hfirst hends (.blanks hblank htokens)
    · rw [List.map_cons, List.map_cons, hcontent]
      rfl

/-- **Every sequence of tokens can be written and read back.** Written with single blanks between
them, and strings in any style, tokens are scanned as tokens of the same kinds and texts, provided
that each text is one that tokens of its kind can have; and no others are read back. -/
theorem scan_writeTokens_iff (drafts : List Draft) :
    (∀ draft ∈ drafts, draft.kind.Carries draft.text) ↔
      ∃ tokens, scan (writeTokens drafts) = .ok tokens ∧
        tokens.map Token.content = drafts.map Draft.content := by
  constructor
  · intro h
    obtain ⟨tokens, hlayout, hcontent⟩ := layout_writeTokens 0 h
    exact ⟨tokens, hlayout.scanFrom_eq, hcontent⟩
  · rintro ⟨tokens, hscan, hcontent⟩ draft hdraft
    have hmem : draft.content ∈ tokens.map Token.content := by
      rw [hcontent]
      exact List.mem_map_of_mem hdraft
    obtain ⟨token, htoken, hsame⟩ := List.mem_map.1 hmem
    obtain ⟨hkind, htext⟩ := Prod.mk.inj hsame
    rw [← hkind, ← htext]
    exact carries_of_mem_scan hscan token htoken

example :
    writeTokens [⟨.integer, "007", {}⟩, ⟨.string, "it's a\tb", { quote := '\'' }⟩,
      ⟨.string, "it's a\tb", { escapes := fun _ => false }⟩] =
        "007 'it\\'s a\\tb' \"it's a\tb\"" := by
  decide

end NestedQuery
