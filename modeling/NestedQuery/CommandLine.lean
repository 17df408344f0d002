/-
# The command line

The arguments name a command with its own options: `check` applies a query to
JSON, `parse` prints the outline of a query, `docs` and `doc` print the
manual. Options begin with one hyphen and a letter or with two hyphens and a
word; a value is the next argument, or is attached. No option is given twice,
and an argument that begins with a hyphen is never the next argument that is
a value, unless it is the hyphen alone. After two hyphens only operands
follow.

Arguments that say no command are refused with the exit code 2. A failed
command has the exit code 1 and writes its message to the error output. A sort
whose order contradicts itself abandons the program, which then ends as on the
signal to abort.

Key definitions: `CommandLine.Switch`, `CommandLine.readArguments`,
`CommandLine.command?`, `CommandLine.Reply`, `CommandLine.respond`.
-/
import NestedQuery.Json.Write
import NestedQuery.Manual
import NestedQuery.Run

namespace NestedQuery
namespace CommandLine

/-! ### Options and operands -/

/-- An option that a command has. -/
structure Switch where
  name : String
  letter : Option Char := none
  /-- Whether it has a value. -/
  valued : Bool := false

/-- Arguments told apart. -/
structure Arguments where
  operands : List String := []
  /-- The options given, with their values. -/
  given : Entries String := []

namespace Arguments

/-- The arguments with one more option, which is not given yet. -/
def give (args : Arguments) (name value : String) : Option Arguments :=
  match args.given.get? name with
  | some _ => none
  | none => some { args with given := args.given ++ [(name, value)] }

/-- The value of an option, if it is given. -/
def value? (args : Arguments) (name : String) : Option String := args.given.get? name

/-- Whether an option is given. -/
def has (args : Arguments) (name : String) : Bool := (args.value? name).isSome

end Arguments

/-- Whether an argument is an option, or marks the end of the options. -/
def isOption (arg : String) : Bool :=
  match arg.toList with
  | '-' :: _ :: _ => true
  | _ => false

/-- Options by their letters. With a value what follows the letter belongs to it; the option
that still needs a value is named. -/
def letters (switches : List Switch) (args : Arguments) :
    List Char → Option (Arguments × Option String)
  | [] => some (args, none)
  | c :: cs =>
    match switches.find? (·.letter == some c) with
    | none => none
    | some switch =>
      if switch.valued then
        match cs with
        | [] => some (args, some switch.name)
        | '=' :: value => (args.give switch.name (String.ofList value)).map (·, none)
        | value => (args.give switch.name (String.ofList value)).map (·, none)
      else (args.give switch.name "").bind fun args => letters switches args cs

/-- An option by its name, with its value attached or not. -/
def long (switches : List Switch) (args : Arguments) (cs : List Char) :
    Option (Arguments × Option String) :=
  let name := String.ofList (cs.takeWhile (· != '='))
  match switches.find? (·.name == name) with
  | none => none
  | some switch =>
    match switch.valued, cs.dropWhile (· != '=') with
    | true, [] => some (args, some name)
    | true, _ :: value => (args.give name (String.ofList value)).map (·, none)
    | false, [] => (args.give name "").map (·, none)
    | false, _ => none

/-- One option, or several by their letters. -/
def option (switches : List Switch) (args : Arguments) (arg : String) :
    Option (Arguments × Option String) :=
  match arg.toList with
  | '-' :: '-' :: cs => long switches args cs
  | _ :: cs => letters switches args cs
  | [] => none

/-- The arguments of a command that has these options. -/
def readArguments (switches : List Switch) (args : Arguments) : List String → Option Arguments
  | [] => some args
  | arg :: rest =>
    if arg = "--" then some { args with operands := args.operands ++ rest }
    else if isOption arg then
      match option switches args arg with
      | none => none
      | some (args, none) => readArguments switches args rest
      | some (args, some name) =>
        match rest with
        | [] => none
        | value :: rest =>
          if isOption value then none
          else (args.give name value).bind fun args => readArguments switches args rest
    else readArguments switches { args with operands := args.operands ++ [arg] } rest

/-! ### Commands -/

/-- What the arguments ask for. -/
inductive Command where
  | check (options : CheckOptions) (pretty : Bool)
  | outline (query : String) (pretty : Bool)
  | overview
  | page (name : String)
  | version

/-- The option that every command has; it filters the log. -/
def logLevel : Switch := { name := "log-level", valued := true }

/-- The option for output that is laid out. -/
def prettySwitch : Switch := { name := "pretty", letter := some 'p' }

/-- The options of `check`. -/
def checkSwitches : List Switch :=
  [logLevel, prettySwitch, { name := "input", letter := some 'i', valued := true },
    { name := "syntax-only" }, { name := "seed", valued := true }, { name := "strict" },
    { name := "objects-as-records" }]

/-- The command of this name with the rest of the arguments. -/
def commandOf? (name : String) (rest : List String) : Option Command :=
  match name with
  | "check" =>
    match readArguments checkSwitches {} rest with
    | some args =>
      match args.operands, args.value? "seed" with
      | [query], none => some (.check (options args query none) (args.has "pretty"))
      | [query], some text =>
        (Numeral.index? text).map fun seed =>
          .check (options args query (some seed)) (args.has "pretty")
      | _, _ => none
    | none => none
  | "parse" =>
    match readArguments [logLevel, prettySwitch] {} rest with
    | some args =>
      match args.operands with
      | [query] => some (.outline query (args.has "pretty"))
      | _ => none
    | none => none
  | "docs" =>
    match readArguments [logLevel] {} rest with
    | some ⟨[], _⟩ => some .overview
    | _ => none
  | "doc" =>
    match readArguments [logLevel] {} rest with
    | some ⟨[name], _⟩ => some (.page name)
    | _ => none
  | _ => none
where
  /-- The options of a check. -/
  options (args : Arguments) (query : String) (seed : Option Nat) : CheckOptions :=
    { query := query
      input := args.value? "input"
      parseOnly := args.has "syntax-only"
      seed := seed
      strict := args.has "strict"
      objectsAsRecords := args.has "objects-as-records" }

/-- Whether an argument asks for the version. -/
def asksVersion (arg : String) : Bool :=
  arg == "--version" || (arg.toList.take 2 == ['-', 'V'])

/-- The command that the arguments say, behind options for all commands. -/
def command? (args : Arguments) : List String → Option Command
  | [] => none
  | arg :: rest =>
    if asksVersion arg then some .version
    else if isOption arg then
      match option [logLevel] args arg with
      | none => none
      | some (args, none) => command? args rest
      | some (args, some name) =>
        match rest with
        | [] => none
        | value :: rest =>
          if isOption value then none
          else (args.give name value).bind fun args => command? args rest
    else commandOf? arg rest

/-- Whether the command reads the input that is piped to it. -/
def Command.readsInput : Command → Bool
  | .check options _ => options.input.isNone && !options.parseOnly
  | _ => false

/-! ### Replies -/

/-- What a command leaves behind. -/
structure Reply where
  exitCode : Nat
  output : String
  error : String

/-- The reply of a command that succeeded. -/
def Reply.success (output : String) : Reply := ⟨0, output, ""⟩

/-- The reply of a command that failed, or was abandoned. -/
def Reply.failure : CommandError → Reply
  | .eval .contradictoryOrder => ⟨134, "", EvalError.contradictoryOrder.message ++ "\n"⟩
  | error => ⟨1, "", error.message ++ "\n"⟩

/-- The reply to arguments that say no command. -/
def Reply.refusal : Reply :=
  ⟨2, "", "Usage: nql [--log-level <LOG_LEVEL>] <check|parse|docs|doc> [ARGUMENTS]\n"⟩

/-- The reply of a command that is piped this input. -/
def Command.reply (piped : String) : Command → Reply
  | .check options pretty =>
    let options := if options.input.isNone && !options.parseOnly
      then { options with input := some piped } else options
    match NestedQuery.check options with
    | .error e => .failure e
    | .ok .wellFormed => .success "Syntax is valid\n"
    | .ok (.result json) => .success (json.write pretty ++ "\n")
  | .outline query pretty =>
    match outlineText query with
    | .error e => .failure e
    | .ok json => .success (json.write pretty ++ "\n")
  | .overview => .success Manual.overview
  | .page name =>
    match Manual.category? name with
    | some category => .success (Manual.page category)
    | none => .failure (.unknownCategory name)
  | .version => .success "nql 0.3.0\n"

/-- The reply to arguments, with this input piped to the command. -/
def respond (args : List String) (piped : String) : Reply :=
  match command? {} args with
  | some command => command.reply piped
  | none => .refusal

end CommandLine
end NestedQuery
