/-
# Why a text is not a query

A text fails to be a query because it does not split into tokens, because a
token cannot follow the ones before it, or because two siblings share an
alias. An unexpected token is reported with what could have stood in its
place and with the phrase that was being read.

Key definitions: `Phrase`, `Expectation`, `SyntaxError`, `ParseError`,
`ParseError.message`.
-/
import NestedQuery.Token.Scan

namespace NestedQuery

/-- The phrases that a syntax error can lie in; all but the first know their entity's path. -/
inductive Phrase where
  | entity
  | entityAt (path : String)
  | modifierOf (path : String)
  | sortOf (path : String)
  | limitOf (path : String)
  | subQueryOf (path : String)
  deriving DecidableEq

/-- How messages name a phrase. -/
def Phrase.name : Phrase → String
  | entity => "entity"
  | entityAt path => s!"entity '{path}'"
  | modifierOf path => s!"modifier of '{path}'"
  | sortOf path => s!"sort modifier of '{path}'"
  | limitOf path => s!"limit modifier of '{path}'"
  | subQueryOf path => s!"sub-query of '{path}'"

/-- What could have stood in the place of an unexpected token. -/
inductive Expectation where
  /-- A token of one of these kinds. -/
  | oneOf (kinds : List Kind)
  /-- Another entity or nothing. -/
  | commaOrEnd
  /-- An integer that fits a 64-bit word. -/
  | integerInRange
  deriving DecidableEq

/-- How messages name an expectation. -/
def Expectation.name : Expectation → String
  | oneOf kinds => " or ".intercalate (kinds.map Kind.literal)
  | commaOrEnd => "',' or end of string"
  | integerInRange => "integer within range"

/-- The token that a syntax error was raised on. -/
structure Found where
  text : String
  position : Nat
  deriving DecidableEq

/-- A token cannot follow the ones before it. -/
structure SyntaxError where
  expected : Expectation
  /-- The token, or nothing at the end of the text. -/
  found : Option Found
  /-- The phrase being read, or nothing behind a complete query. -/
  phrase : Option Phrase
  deriving DecidableEq

/-- The wording of a syntax error. -/
def SyntaxError.message (e : SyntaxError) : String :=
  let found := match e.found with
    | some found => s!"'{found.text}' at position {found.position}"
    | none => "end of string"
  let place := match e.phrase with
    | some phrase => s!" in {phrase.name}"
    | none => ""
  s!"[Syntax Error] Expected {e.expected.name}, got {found}{place}."

/-- Why a text is not a query. -/
inductive ParseError where
  | lexical (error : LexError)
  | unexpected (error : SyntaxError)
  /-- The entity that begins here has the alias of an earlier sibling. -/
  | duplicateAlias (aliasName : String) (position : Nat)
  deriving DecidableEq

/-- The wording of a parse error. -/
def ParseError.message : ParseError → String
  | lexical error => s!"[Lexical Error] {error.message}"
  | unexpected error => error.message
  | duplicateAlias aliasName position =>
    s!"[Semantical Error] Duplicate alias '{aliasName}' at position {position}."

end NestedQuery
