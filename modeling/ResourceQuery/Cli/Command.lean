/-
Commands, and the command lines that say them.

A command line is a subcommand and its arguments. Options and positional arguments may be mixed in any order; an
option's value follows it, as the next argument or after an equals sign; after `--` every argument is positional. The
arguments are read from left to right, and the first that cannot be accepted, or asks for help, settles the matter.
-/
import ResourceQuery.Resource

namespace ResourceQuery.Cli

/-! ## Commands -/

/-- what all subcommands share: where page sizes come from, and how much is reported -/
structure Options where
  config : Option String := none
  pageLimit : Option UInt32 := none
  nestedPageLimit : Option UInt32 := none
  /-- at most 255 -/
  verbosity : Nat := 0
deriving DecidableEq, Repr

inductive Command where
  /-- print a query document, or only its variables -/
  | compile (root : ResourceId) (resources : List ResourceId) (strict variablesOnly : Bool) (options : Options)
  /-- list the registry, or print it as JSON -/
  | resources (json : Bool) (options : Options)
deriving DecidableEq, Repr

/-- why a command line gives no command -/
inductive Refusal where
  | usage
  /-- help was asked for -/
  | help
deriving DecidableEq, Repr

inductive Subcommand where
  | compile
  | resources
deriving DecidableEq, Repr

/-! ## Arguments -/

/-- an argument by its form -/
inductive Argument where
  /-- the argument `--` -/
  | separator
  /-- an option, as `--name` or `--name=value` -/
  | long (name : String) (value : Option String)
  /-- letters after one dash -/
  | short (letters : List Char)
  | positional (text : String)
deriving DecidableEq, Repr

/-- A lone dash is positional. -/
def Argument.ofString (s : String) : Argument :=
  match s.toList with
  | ['-', '-'] => separator
  | '-' :: '-' :: rest =>
    let value :=
      match rest.dropWhile (· ≠ '=') with
      | [] => none
      | _ :: value => some (String.ofList value)
    long (String.ofList (rest.takeWhile (· ≠ '='))) value
  | '-' :: c :: rest => short (c :: rest)
  | _ => positional s

/-- whether a separate argument can be the value of an option: no dash in front, unless it is all there is -/
def canBeValue (s : String) : Bool := s.toList.head? ≠ some '-' || s = "-"

/-- A page limit: decimal digits after an optional sign, from 1 to 2^32 - 1. -/
def limit? (s : String) : Option UInt32 :=
  let ds :=
    match s.toList with
    | '+' :: ds => ds
    | ds => ds
  let n := Nat.ofDigitChars 10 ds 0
  if h : ds ≠ [] ∧ ds.all Char.isDigit ∧ 0 < n ∧ n < UInt32.size then some (UInt32.ofNatLT n h.2.2.2) else none

/-- the pieces between commas that are not empty -/
def splitResources (s : String) : List ResourceId :=
  ((s.toList.splitOn ',').filter (· ≠ [])).map fun cs => ⟨String.ofList cs⟩

/-! ## Reading a command line -/

/-- what the arguments have said so far -/
structure Invocation where
  positionals : List String := []
  strict : Bool := false
  variablesOnly : Bool := false
  json : Bool := false
  options : Options := {}
deriving DecidableEq, Repr

namespace Invocation

/-- gives an option its value, once; none if that cannot be -/
def setValue (i : Invocation) (name value : String) : Option Invocation :=
  match name with
  | "config" =>
    if i.options.config = none ∧ value ≠ "" then some { i with options := { i.options with config := some value } }
    else none
  | "page-limit" =>
    if i.options.pageLimit = none then
      (limit? value).map fun n => { i with options := { i.options with pageLimit := some n } }
    else none
  | "nested-page-limit" =>
    if i.options.nestedPageLimit = none then
      (limit? value).map fun n => { i with options := { i.options with nestedPageLimit := some n } }
    else none
  | _ => none

def takesValue (name : String) : Bool := name = "config" || name = "page-limit" || name = "nested-page-limit"

/-- sets a flag of the subcommand, once; none if that cannot be -/
def setFlag (i : Invocation) (sub : Subcommand) (name : String) : Option Invocation :=
  match sub, name with
  | .compile, "strict" => if i.strict then none else some { i with strict := true }
  | .compile, "variables" => if i.variablesOnly then none else some { i with variablesOnly := true }
  | .resources, "json" => if i.json then none else some { i with json := true }
  | _, _ => none

/-- adds positional arguments; only `compile` has any -/
def addPositionals (i : Invocation) (sub : Subcommand) (texts : List String) : Except Refusal Invocation :=
  match sub with
  | .compile => .ok { i with positionals := i.positionals ++ texts }
  | .resources => if texts = [] then .ok i else .error .usage

/-- takes short options letter by letter -/
def addLetters (i : Invocation) : List Char → Except Refusal Invocation
  | [] => .ok i
  | 'v' :: rest =>
    addLetters { i with options := { i.options with verbosity := min 255 (i.options.verbosity + 1) } } rest
  | 'h' :: _ => .error .help
  | _ :: _ => .error .usage

def orUsage {α : Type} : Option α → Except Refusal α
  | some a => .ok a
  | none => .error .usage

/-- takes the arguments of a subcommand -/
def addArguments (sub : Subcommand) : Invocation → List String → Except Refusal Invocation
  | i, [] => .ok i
  | i, a :: rest =>
    match Argument.ofString a with
    | .separator => i.addPositionals sub rest
    | .positional text => do addArguments sub (← i.addPositionals sub [text]) rest
    | .short letters => do addArguments sub (← i.addLetters letters) rest
    | .long name (some value) => do addArguments sub (← orUsage (i.setValue name value)) rest
    | .long name none =>
      if takesValue name then
        match rest with
        | [] => .error .usage
        | value :: rest =>
          if canBeValue value then do addArguments sub (← orUsage (i.setValue name value)) rest else .error .usage
      else if name = "help" then .error .help
      else do addArguments sub (← orUsage (i.setFlag sub name)) rest

/-- the command, when all arguments are taken -/
def toCommand (i : Invocation) : Subcommand → Except Refusal Command
  | .compile =>
    match i.positionals with
    | [] => .error .usage
    | root :: more => .ok (.compile ⟨root⟩ (more.flatMap splitResources) i.strict i.variablesOnly i.options)
  | .resources => .ok (.resources i.json i.options)

end Invocation

/-- the command of a subcommand with its arguments -/
def Subcommand.parse (sub : Subcommand) (arguments : List String) : Except Refusal Command := do
  (← Invocation.addArguments sub {} arguments).toCommand sub

/-- the command that a command line says, without the name of the program -/
def Command.parse : List String → Except Refusal Command
  | "compile" :: arguments => Subcommand.compile.parse arguments
  | "resources" :: arguments => Subcommand.resources.parse arguments
  | "help" :: topics =>
    if topics ∈ [[], ["compile"], ["resources"], ["help"]] then .error .help else .error .usage
  | a :: _ =>
    match Argument.ofString a with
    | .long "help" none => .error .help
    | .short ('h' :: _) => .error .help
    | _ => .error .usage
  | [] => .error .usage

end ResourceQuery.Cli
