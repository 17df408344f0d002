/-
# The manual

What the command line shows about the language: an overview and one page for
each category. A category is found by its name or by one of the names of what
it is about, in either case, with hyphens or underscores.

Key definitions: `Manual.Category`, `Manual.category?`, `Manual.overview`,
`Manual.page`.
-/
namespace NestedQuery
namespace Manual

/-- The categories of the manual. -/
inductive Category where
  | language
  | entities
  | modifiers
  | nesting
  | sources
  deriving DecidableEq

/-- The names by which a category is found. -/
def Category.names : Category → List String
  | language => ["syntax"]
  | entities => ["entities", "entity", "aliases"]
  | modifiers => ["modifiers", "modifier", "sort", "limit", "randomize"]
  | nesting => ["nesting", "subqueries", "sub_queries"]
  | sources => ["sources", "source", "data_sources", "resolvers"]

/-- Every category, in the order of the overview. -/
def Category.all : List Category := [.language, .entities, .modifiers, .nesting, .sources]

/-- A name in small letters, with underscores for hyphens. Letters beyond ASCII are left as they
are, since none of them has a small form that is part of a name. -/
def plainName (name : String) : String :=
  String.ofList (name.toList.map fun c => if c = '-' then '_' else c.toLower)

/-- The category of this name. -/
def category? (name : String) : Option Category :=
  Category.all.find? fun category => category.names.contains (plainName name)

/-- A text of these lines, each of them ended. -/
def lines (ls : List String) : String := String.join (ls.map (· ++ "\n"))

/-- The list of categories, with a few examples. -/
def overview : String :=
  lines [
    "NQL DOCUMENTATION",
    "",
    "NQL is a small query language for selecting and shaping data. A query names",
    "the properties to fetch, optionally renames them, orders or slices them with",
    "modifiers and projects nested values through sub-queries.",
    "",
    "DOCUMENTATION CATEGORIES",
    "",
    "  syntax            Tokens, literals and the overall grammar",
    "  entities          Property paths, identifiers and aliases",
    "  modifiers         sort, limit, randomize and unknown modifiers",
    "  nesting           Sub-queries over lists, objects and records",
    "  sources           Resolvers, data sources and lazy values",
    "",
    "QUICK REFERENCE",
    "",
    "  users                       Property 'users'",
    "  users#42                    Item 42 of 'users'",
    "  profile.name as name        Nested path, renamed",
    "  posts|sort: date desc       Sorted descending",
    "  posts|limit: 10, 5          Skip 10, take 5",
    "  users \x7b id, name \x7d          Project each user",
    "",
    "Run 'nql doc <category>' for detailed documentation."]

/-- Tokens, grammar and errors. -/
def languageText : String :=
  lines [
    "SYNTAX",
    "",
    "A query is a comma-separated list of entities:",
    "",
    "  Query     ::= Entity (\",\" Entity)*",
    "  Entity    ::= Path [\"#\" Identifier] [\"as\" Name] Modifier* [\"\x7b\" Query \"\x7d\"]",
    "  Modifier  ::= \"|\" Keyword [\":\" Payload]",
    "",
    "TOKENS",
    "",
    "  42  3.5             Integer and float literals",
    "  'text'  \"text\"      Strings, with \\' \\\" \\\\ \\n \\t escapes",
    "  name                Identifiers (letters, digits, '_')",
    "  as  null            Keywords; still usable as property names",
    "  , | # \x7b \x7d : = ( ) @ .",
    "",
    "Whitespace separates tokens and is otherwise ignored, except inside dotted",
    "paths: 'a.b' is one path, 'a . b' is an error.",
    "",
    "ERRORS",
    "",
    "Parsing stops at the first problem and reports it with a position:",
    "",
    "  [Syntax Error] Expected integer, got 'x' at position 13 in limit modifier of 'users'."]

/-- Property paths, identifiers and aliases. -/
def entitiesText : String :=
  lines [
    "ENTITIES",
    "",
    "PATHS",
    "",
    "  name                  Top-level property",
    "  profile.address.city  Dotted path into nested values",
    "",
    "On plain data the exact key is tried first, then the dotted path.",
    "Missing properties yield null (or an error with --strict).",
    "",
    "IDENTIFIERS",
    "",
    "  users#42              Integer identifier",
    "  users#admin           Identifier",
    "  users#'a b'           Quoted identifier",
    "",
    "Identifiers are handed to resolvers and data sources, which use them to",
    "fetch a single item.",
    "",
    "ALIASES",
    "",
    "  profile.name as name  Result key 'name' instead of 'profile.name'",
    "",
    "Every alias must be unique within its query or sub-query."]

/-- What each modifier does. -/
def modifiersText : String :=
  lines [
    "MODIFIERS",
    "",
    "Modifiers follow an entity and run left to right after any sub-query.",
    "",
    "SORT",
    "",
    "  posts|sort: date                  Ascending",
    "  posts|sort: date desc, title asc  Multi-key, first differing key wins",
    "",
    "Sorting is stable. Missing keys sort as null, which comes first.",
    "",
    "LIMIT",
    "",
    "  posts|limit: 5          First 5 items",
    "  posts|limit: 10, 5      Skip 10, take 5",
    "  posts|limit: 10, null   Skip 10, take the rest",
    "",
    "RANDOMIZE",
    "",
    "  posts|randomize         Shuffle (use --seed for reproducible output)",
    "",
    "OTHER KEYWORDS",
    "",
    "Unknown modifiers are parsed and kept but have no effect; a warning is",
    "logged with their payload.",
    "",
    "sort, limit and randomize require a list. Applying them to anything else",
    "is an evaluation error."]

/-- How sub-queries are applied. -/
def nestingText : String :=
  lines [
    "NESTING",
    "",
    "A sub-query in braces is applied to the value of its entity:",
    "",
    "  users \x7b id, name \x7d",
    "",
    "- lists: applied to each element",
    "- objects: applied to each value, keys kept (--objects-as-records applies",
    "  it to the object itself)",
    "- records: applied to the record",
    "",
    "Elements that cannot be traversed become null. Modifiers are written",
    "before the sub-query but run after it, so sorting can use projected aliases:",
    "",
    "  users|sort: age desc \x7b profile.age as age \x7d"]

/-- What else queries can be applied to. -/
def sourcesText : String :=
  lines [
    "DATA SOURCES",
    "",
    "Embedders can evaluate queries against more than plain JSON:",
    "",
    "- a resolver is asked for every top-level entity by path and identifier",
    "- a data source answers fetch_one (users#42) and fetch_all (users)",
    "- deferred values are computed when the entity reaching them is evaluated",
    "- lazy collections are realized on demand",
    "- date/times are rendered as ISO-8601 strings",
    "",
    "The CLI evaluates against the JSON given with --input or piped to stdin."]

/-- The page of a category. -/
def page : Category → String
  | .language => languageText
  | .entities => entitiesText
  | .modifiers => modifiersText
  | .nesting => nestingText
  | .sources => sourcesText

end Manual
end NestedQuery
