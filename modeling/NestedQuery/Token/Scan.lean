/-
# From text to tokens

`scan` splits a query into its tokens or names the first place where none
begins. Blanks separate tokens. A word, a number and a string literal reach
as far as they can; every other token is one character. A number has a
fraction only if a digit follows the point, and a whole number must fit a
64-bit word. A string literal ends at the first quote of its own style that
no backslash escapes.

Key definitions: `LexError`, `Lexeme`, `quoted`, `number`, `word`, `lexeme`,
`scanFrom`, `scan`.
Key theorems: `length_rest_of_quoted`, `length_rest_of_lexeme`.
-/
import NestedQuery.Text.CharClass
import NestedQuery.Text.Numeral
import NestedQuery.Token

namespace NestedQuery

open Text

/-- Why a text is not a sequence of tokens. -/
inductive LexError where
  /-- No token begins with this character. -/
  | unexpected (ch : Char) (position : Nat)
  /-- The string literal that begins here has no closing quote. -/
  | unterminated (position : Nat)
  /-- A backslash is followed by this character, which has no escaped meaning. -/
  | invalidEscape (ch : Char) (position : Nat)
  /-- A whole number does not fit a 64-bit word. -/
  | invalidNumber (text : String) (position : Nat)
  deriving DecidableEq

/-- The wording of a lexical error. -/
def LexError.message : LexError → String
  | unexpected ch position => s!"Unexpected character '{ch}' at position {position}"
  | unterminated position =>
    s!"Unterminated string starting at position {position}: missing closing quote"
  | invalidEscape ch position =>
    "Invalid escape sequence '\\" ++ s!"{ch}' at position {position}"
  | invalidNumber text position => s!"Invalid number '{text}' at position {position}"

/-- A result is mapped exactly if there is one. -/
theorem map_eq_ok_iff {ε α β : Type} {f : α → β} {x : Except ε α} {b : β} :
    x.map f = .ok b ↔ ∃ a, x = .ok a ∧ f a = b := by
  cases x <;> simp [Except.map]

theorem exists_map_eq_ok_iff {ε α β : Type} {f : α → β} {x : Except ε α} :
    (∃ b, x.map f = .ok b) ↔ ∃ a, x = .ok a := by
  cases x <;> simp [Except.map]

/-- A result is mapped to an error exactly if it is that error. -/
theorem map_eq_error_iff {ε α β : Type} {f : α → β} {x : Except ε α} {e : ε} :
    x.map f = .error e ↔ x = .error e := by
  cases x <;> simp [Except.map]

/-- One token found at the head of a text. -/
structure Lexeme where
  kind : Kind
  /-- The text the token carries. -/
  text : List Char
  /-- The place just behind the written form of the token. -/
  stop : Nat
  /-- The text behind it. -/
  rest : List Char

/-- One more character at the front of the token's text. -/
def Lexeme.push (c : Char) (l : Lexeme) : Lexeme := { l with text := c :: l.text }

/-! ### String literals -/

/-- The character that a backslash followed by this one stands for. -/
def unescape? : Char → Option Char
  | 'n' => some '\n'
  | 't' => some '\t'
  | 'r' => some '\r'
  | '"' => some '"'
  | '\'' => some '\''
  | '\\' => some '\\'
  | _ => none

/-- The string literal opened at `start`, read from the place `p` inside it to its closing
quote. -/
def quoted (quote : Char) (start : Nat) : Nat → List Char → Except LexError Lexeme
  | _, [] => .error (.unterminated start)
  | p, c :: cs =>
    if c = quote then .ok ⟨.string, [], p + 1, cs⟩
    else if c = '\\' then
      match cs with
      | [] => .error (.unterminated start)
      | e :: cs =>
        match unescape? e with
        | none => .error (.invalidEscape e (p + 1))
        | some u => (quoted quote start (p + 2) cs).map (Lexeme.push u)
    else (quoted quote start (p + 1) cs).map (Lexeme.push c)

theorem length_rest_of_quoted {quote : Char} {start : Nat} {p : Nat} {cs : List Char}
    {l : Lexeme} (h : quoted quote start p cs = .ok l) : l.rest.length < cs.length := by
  fun_induction quoted quote start p cs generalizing l with
  | case1 => simp at h
  | case2 => cases h; simp
  | case3 => simp at h
  | case4 => simp at h
  | case5 p cs e u hu hq ih =>
    obtain ⟨l', hl', rfl⟩ := map_eq_ok_iff.1 h
    have := ih hl'
    simp only [Lexeme.push, List.length_cons]
    omega
  | case6 p c cs hq hc ih =>
    obtain ⟨l', hl', rfl⟩ := map_eq_ok_iff.1 h
    have := ih hl'
    simp only [Lexeme.push, List.length_cons]
    omega

/-! ### Words and numbers -/

/-- The word at the head of the text. -/
def word (p : Nat) (cs : List Char) : Lexeme :=
  let text := cs.takeWhile isWordPart
  ⟨Kind.ofWord (String.ofList text), text, p + text.length, cs.dropWhile isWordPart⟩

/-- The digits behind a point, and what follows them; there must be at least one. -/
def fraction? : List Char → Option (List Char × List Char)
  | '.' :: d :: cs =>
    if d.isDigit then some (d :: cs.takeWhile Char.isDigit, cs.dropWhile Char.isDigit) else none
  | _ => none

/-- The number at the head of the text. -/
def number (p : Nat) (cs : List Char) : Except LexError Lexeme :=
  let whole := cs.takeWhile Char.isDigit
  let behind := cs.dropWhile Char.isDigit
  match fraction? behind with
  | some (digits, rest) =>
    .ok ⟨.float, whole ++ '.' :: digits, p + whole.length + 1 + digits.length, rest⟩
  | none =>
    if Numeral.value whole < wordSize then .ok ⟨.integer, whole, p + whole.length, behind⟩
    else .error (.invalidNumber (String.ofList whole) p)

theorem length_of_fraction? {cs digits rest : List Char} (h : fraction? cs = some (digits, rest)) :
    rest.length < cs.length := by
  unfold fraction? at h
  split at h
  · split at h
    · cases h
      exact Nat.lt_succ_of_lt (Nat.lt_succ_of_le (List.dropWhile_sublist _).length_le)
    · simp at h
  · simp at h

theorem length_rest_of_number {p : Nat} {cs : List Char} {l : Lexeme} (h : number p cs = .ok l) :
    l.rest.length ≤ (cs.dropWhile Char.isDigit).length := by
  simp only [number] at h
  split at h
  · next hf =>
    cases h
    exact Nat.le_of_lt (length_of_fraction? hf)
  · split at h
    · cases h
      exact Nat.le_refl _
    · simp at h

/-! ### Scanning -/

/-- The token at the place `p`, where the text goes on with `c` and then `cs`. -/
def lexeme (p : Nat) (c : Char) (cs : List Char) : Except LexError Lexeme :=
  match Kind.punctuation? c with
  | some kind => .ok ⟨kind, [c], p + 1, cs⟩
  | none =>
    if c = '"' ∨ c = '\'' then quoted c p (p + 1) cs
    else if isWordStart c then .ok (word p (c :: cs))
    else if c.isDigit then number p (c :: cs)
    else .error (.unexpected c p)

/-- Every token uses up at least one character. -/
theorem length_rest_of_lexeme {p : Nat} {c : Char} {cs : List Char} {l : Lexeme}
    (h : lexeme p c cs = .ok l) : l.rest.length ≤ cs.length := by
  unfold lexeme at h
  split at h
  · cases h
    exact Nat.le_refl _
  · split at h
    · exact Nat.le_of_lt (length_rest_of_quoted h)
    · split at h
      · next hs =>
        cases h
        simpa [word, isWordPart_of_isWordStart hs] using (List.dropWhile_sublist _).length_le
      · split at h
        · next hd =>
          refine Nat.le_trans (length_rest_of_number h) ?_
          simpa [hd] using (List.dropWhile_sublist _).length_le
        · simp at h

/-- The tokens of a text whose first character is at the place `p`. -/
def scanFrom (p : Nat) : List Char → Except LexError (List Token)
  | [] => .ok []
  | c :: cs =>
    if isBlank c then scanFrom (p + 1) cs
    else
      match _h : lexeme p c cs with
      | .error e => .error e
      | .ok l => (scanFrom l.stop l.rest).map (⟨l.kind, String.ofList l.text, p⟩ :: ·)
termination_by cs => cs.length
decreasing_by
  · simp
  · have := length_rest_of_lexeme ‹lexeme _ _ _ = _›
    simp only [List.length_cons]
    omega

/-- The tokens of a query. -/
def scan (query : String) : Except LexError (List Token) := scanFrom 0 query.toList

end NestedQuery
