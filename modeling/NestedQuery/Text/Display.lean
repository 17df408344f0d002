/-
# Texts on display

How a text is shown so that every character of it can be told: in double
quotes, with short escapes for the quote, the backslash and four control
characters, and by number for characters that have no picture or that would
merge with the quote. Among those without a picture are the fillers, letters
that are drawn as nothing; the half-width sound marks count as parts of the
character before them but are drawn on their own, so they do not merge.

Key definitions: `isInvisible`, `joins`, `displayChar`, `display`.
-/
import NestedQuery.Text.GraphemeExtend
import NestedQuery.Text.Unprintable

namespace NestedQuery
namespace Text

/-- The letters with the property `Default_Ignorable_Code_Point`, all of them fillers of the Hangul
script. -/
def fillers : CodeRanges := [(0x115f, 0x1160), (0x3164, 0x3164), (0xffa0, 0xffa0)]

/-- The letters with the property `Grapheme_Extend`, which are the half-width sound marks of the
Katakana script. -/
def soundMarks : CodeRanges := [(0xff9e, 0xff9f)]

/-- Whether a character has no picture. -/
def isInvisible (c : Char) : Bool := unprintable.has c.toNat || fillers.has c.toNat

/-- Whether a character merges with the one before it. -/
def joins (c : Char) : Bool := graphemeExtend.has c.toNat && !soundMarks.has c.toNat

/-- A character by its number in hexadecimal. -/
def displayNumber (c : Char) : String :=
  "\\u\x7b" ++ String.ofList (Nat.toDigits 16 c.toNat) ++ "\x7d"

/-- A character inside quotes. -/
def displayChar (c : Char) : String :=
  if c = '\x00' then "\\0"
  else if c = '\t' then "\\t"
  else if c = '\r' then "\\r"
  else if c = '\n' then "\\n"
  else if c = '"' then "\\\""
  else if c = '\\' then "\\\\"
  else if joins c || isInvisible c then displayNumber c
  else String.singleton c

/-- A text in quotes. -/
def display (s : String) : String := "\"" ++ String.join (s.toList.map displayChar) ++ "\""

end Text
end NestedQuery
