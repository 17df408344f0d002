/-
# Reading tokens with one of lookahead

A cursor over the tokens of a query. It shows two of them: the one read last
and the one to be read next; what comes after those can be glimpsed. Before
the first move both slots are empty, and moves past the end empty them again,
one after the other.

Key definitions: `Cursor`, `Cursor.moveNext`, `Cursor.glimpse`,
`Cursor.load`.
-/
import NestedQuery.Token.Scan

namespace NestedQuery

/-- A place in a sequence of tokens. -/
structure Cursor where
  /-- The token read last. -/
  token : Option Token := none
  /-- The token to be read next. -/
  lookahead : Option Token := none
  /-- The tokens behind the lookahead. -/
  upcoming : List Token := []

namespace Cursor

/-- A cursor in front of the first of these tokens. -/
def ofTokens (tokens : List Token) : Cursor := ⟨none, none, tokens⟩

/-- A cursor in front of the first token of the query. -/
def ofQuery (query : String) : Except LexError Cursor := (scan query).map ofTokens

/-- The cursor on a new query; one that has no tokens leaves it where it is. -/
def load (cursor : Cursor) (query : String) : Except LexError Unit × Cursor :=
  match scan query with
  | .ok tokens => (.ok (), ofTokens tokens)
  | .error e => (.error e, cursor)

/-- One token further. -/
def moveNext (cursor : Cursor) : Cursor :=
  match cursor.upcoming with
  | [] => ⟨cursor.lookahead, none, []⟩
  | token :: upcoming => ⟨cursor.lookahead, some token, upcoming⟩

/-- Whether a token is left to be read. -/
def hasNext (cursor : Cursor) : Bool := cursor.lookahead.isSome

/-- The token behind the lookahead. -/
def glimpse (cursor : Cursor) : Option Token := cursor.upcoming.head?

/-- Whether the token to be read next is of this kind. -/
def isNext (cursor : Cursor) (kind : Kind) : Bool := cursor.lookahead.any (·.kind == kind)

/-- Whether the token to be read next is of one of these kinds. -/
def isNextAny (cursor : Cursor) (kinds : List Kind) : Bool :=
  cursor.lookahead.any (kinds.contains ·.kind)

/-- The text of the token to be read next. -/
def lookaheadText (cursor : Cursor) : Option String := cursor.lookahead.map Token.text

end Cursor
end NestedQuery
