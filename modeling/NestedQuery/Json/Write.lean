/-
# JSON as text

A value is written compact, without any blanks, or laid out with one item a
line, two blanks deeper inside each container; empty containers stay on one
line in both. Text is quoted with the seven short escapes, other control
characters by number, and everything else as it is. A floating-point number
has the shortest digits that read back; it is written out while the power of
ten of its first digit is between -5 and 15.

Key definitions: `Json.quote`, `Json.floatStyle`, `Json.write`.
-/
import NestedQuery.Binary64.Text
import NestedQuery.Json

namespace NestedQuery
namespace Json

/-- Powers of ten from -5 to 15 are written out; greater ones carry a plus. Ties go to the even
digit. -/
def floatStyle : Binary64.Style := ⟨-5, 15, "+", .even⟩

/-- How a character is written inside quotes. -/
def escape (c : Char) : String :=
  if c = '"' then "\\\""
  else if c = '\\' then "\\\\"
  else if c = '\n' then "\\n"
  else if c = '\r' then "\\r"
  else if c = '\t' then "\\t"
  else if c = '\x08' then "\\b"
  else if c = '\x0c' then "\\f"
  else if c.toNat < 0x20 then
    "\\u00" ++ String.ofList [Nat.digitChar (c.toNat / 16), Nat.digitChar (c.toNat % 16)]
  else String.singleton c

/-- A text in quotes. -/
def quote (s : String) : String := "\"" ++ String.join (s.toList.map escape) ++ "\""

/-- What comes before each item of a container and before its end, at this depth. -/
def lineBreak (pretty : Bool) (depth : Nat) : String :=
  if pretty then "\n" ++ String.ofList (List.replicate (2 * depth) ' ') else ""

/-- The key of a member and its colon. -/
def writeKey (pretty : Bool) (key : String) : String :=
  quote key ++ if pretty then ": " else ":"

/-- The text of a container inside `depth` others, with these brackets and items. -/
def enclose (pretty : Bool) (depth : Nat) (opening closing : String) (items : List String) :
    String :=
  if items.isEmpty then opening ++ closing
  else
    opening ++ lineBreak pretty (depth + 1) ++
      ("," ++ lineBreak pretty (depth + 1)).intercalate items ++ lineBreak pretty depth ++ closing

mutual

/-- The text of a value inside `depth` containers. -/
def writeAt (pretty : Bool) (depth : Nat) : Json → String
  | null => "null"
  | boolean true => "true"
  | boolean false => "false"
  | integer n => toString n
  | float x => x.write floatStyle
  | string s => quote s
  | array items => enclose pretty depth "[" "]" (writeItems pretty (depth + 1) items)
  | object members =>
    enclose pretty depth "\x7b" "\x7d" (writeMembers pretty (depth + 1) members)

/-- The texts of items. -/
def writeItems (pretty : Bool) (depth : Nat) : List Json → List String
  | [] => []
  | item :: items => writeAt pretty depth item :: writeItems pretty depth items

/-- The texts of members. -/
def writeMembers (pretty : Bool) (depth : Nat) : List (String × Json) → List String
  | [] => []
  | (key, value) :: members =>
    (writeKey pretty key ++ writeAt pretty depth value) :: writeMembers pretty depth members

end

/-- The text of a value, laid out if `pretty` is set. -/
def write (json : Json) (pretty : Bool := false) : String := writeAt pretty 0 json

end Json
end NestedQuery
