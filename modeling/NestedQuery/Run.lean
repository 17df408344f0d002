/-
# Running a query text

A query text is parsed and applied in one go: to a root by an evaluator
without settings, or to JSON text with the settings of a command. Errors say
which of the steps failed.

Key definitions: `QueryError`, `runQuery`, `CommandError`, `CheckOptions`,
`check`, `outlineText`.
-/
import NestedQuery.Json.Read
import NestedQuery.Query.Outline
import NestedQuery.Query.Parser
import NestedQuery.Session
import NestedQuery.Value.Json

namespace NestedQuery

/-- Why a query text gives nothing. -/
inductive QueryError where
  | parse (error : ParseError)
  | eval (error : EvalError)

/-- The wording of a query error is that of its cause. -/
def QueryError.message : QueryError → String
  | parse error => error.message
  | eval error => error.message

/-- A query text applied to a root by an evaluator without settings. -/
def runQuery (text : String) (root : Root) : Except QueryError Selection :=
  match parse text with
  | .error e => .error (.parse e)
  | .ok query =>
    match (({} : Session).apply query root).1 with
    | .error e => .error (.eval e)
    | .ok selection => .ok selection

/-- Why a command fails. -/
inductive CommandError where
  | parse (error : ParseError)
  | eval (error : EvalError)
  /-- The input is not JSON. -/
  | malformedInput
  | noInput
  /-- The manual has no category of this name. -/
  | unknownCategory (name : String)

/-- The wording of a command error. -/
def CommandError.message : CommandError → String
  | parse error => error.message
  | eval error => s!"Evaluation error: {error.message}"
  | malformedInput => "Invalid JSON"
  | noInput => "No input provided. Use --input or pipe JSON to stdin."
  | unknownCategory name =>
    s!"Unknown category: '{name}'\nRun 'nql docs' to see available categories."

/-- What to check, and how. -/
structure CheckOptions where
  query : String
  /-- The text of the JSON that the query is applied to. -/
  input : Option String := none
  /-- Only parse the query. -/
  parseOnly : Bool := false
  seed : Option Nat := none
  /-- Fail on missing properties. -/
  strict : Bool := false
  /-- Apply sub-queries to objects themselves. -/
  objectsAsRecords : Bool := false

/-- What a successful check gives. -/
inductive CheckResult where
  /-- The query is well-formed, and no more was asked for. -/
  | wellFormed
  | result (json : Json)

/-- The session that the options ask for. -/
def CheckOptions.session (options : CheckOptions) : Session where
  evaluator :=
    { accessor := ⟨options.strict⟩
      recursion := if options.objectsAsRecords then .direct else .elementWise }
  generator := .ofSeed (options.seed.getD 0)

/-- Parses a query and applies it to the JSON of the input. -/
def check (options : CheckOptions) : Except CommandError CheckResult :=
  match parse options.query with
  | .error e => .error (.parse e)
  | .ok query =>
    if options.parseOnly then .ok .wellFormed
    else
      match options.input with
      | none => .error .noInput
      | some text =>
        match Json.read? text with
        | none => .error .malformedInput
        | some json =>
          match (options.session.apply query (.value (.ofJson json))).1 with
          | .error e => .error (.eval e)
          | .ok selection =>
            match selection.toJson with
            | .error e => .error (.eval e)
            | .ok output => .ok (.result output)

/-- The outline of a query text. -/
def outlineText (text : String) : Except CommandError Json :=
  match parse text with
  | .error e => .error (.parse e)
  | .ok query => .ok (Query.outline query)

end NestedQuery
