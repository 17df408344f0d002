/-
# Tokens

The lexical units of a query. A token has a kind, a text and the place of its
first character, counted in characters of the query. The text of a string
token is its content, without quotes and with the escapes resolved; the text
of every other token is what the query says.

Key definitions: `Kind`, `Kind.literal`, `Kind.punctuation?`, `Token`,
`Token.stop`.
-/
namespace NestedQuery

/-- The kinds of tokens: literals, words, the two keywords and punctuation. -/
inductive Kind where
  | integer
  | float
  | string
  | identifier
  | asKeyword
  | nullKeyword
  | comma
  | pipe
  | sharp
  | openCurly
  | closeCurly
  | colon
  | equals
  | openParen
  | closeParen
  | atSign
  | dot
  deriving DecidableEq

namespace Kind

/-- Every kind, literals first and punctuation last. -/
def all : List Kind :=
  [integer, float, string, identifier, asKeyword, nullKeyword, comma, pipe, sharp, openCurly,
    closeCurly, colon, equals, openParen, closeParen, atSign, dot]

theorem mem_all (kind : Kind) : kind ∈ all := by
  cases kind <;> decide

/-- How messages name a kind: tokens with a fixed text are quoted. -/
def literal : Kind → String
  | integer => "integer"
  | float => "float"
  | string => "string"
  | identifier => "identifier"
  | asKeyword => "'as'"
  | nullKeyword => "'null'"
  | comma => "','"
  | pipe => "'|'"
  | sharp => "'#'"
  | openCurly => "'\x7b'"
  | closeCurly => "'\x7d'"
  | colon => "':'"
  | equals => "'='"
  | openParen => "'('"
  | closeParen => "')'"
  | atSign => "'@'"
  | dot => "'.'"

/-- The kind of a character that is a token by itself. -/
def punctuation? : Char → Option Kind
  | ',' => some comma
  | '|' => some pipe
  | '#' => some sharp
  | '\x7b' => some openCurly
  | '\x7d' => some closeCurly
  | ':' => some colon
  | '=' => some equals
  | '(' => some openParen
  | ')' => some closeParen
  | '@' => some atSign
  | '.' => some dot
  | _ => none

/-- The kind of a word: the two keywords stand apart from the identifiers. -/
def ofWord (word : String) : Kind :=
  if word = "as" then asKeyword else if word = "null" then nullKeyword else identifier

end Kind

/-- A lexical unit of a query. -/
structure Token where
  /-- What the token is. -/
  kind : Kind
  /-- The content of a string, the written form of any other token. -/
  text : String
  /-- How many characters of the query come before it. -/
  position : Nat
  deriving DecidableEq

/-- The place just behind the token's text; the quotes of a string are not counted. -/
def Token.stop (token : Token) : Nat := token.position + token.text.length

end NestedQuery
