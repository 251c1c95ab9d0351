/-
Running commands.

A command is carried out on the built-in registry with the page limits that its options ask for. It prints a text, and
warns of each resource that a document leaves out, or it fails with a message and prints nothing. What `-v` reports
besides is no part of an outcome. These are lines with the time, about limits and selections while the work goes on, and
nothing that is printed, warned of or refused depends on them.
-/
import ResourceQuery.Cli.Configuration
import ResourceQuery.Cli.Directory
import ResourceQuery.Query.Compile
import ResourceQuery.Registry.GitHub
import ResourceQuery.Registry.Listing

namespace ResourceQuery.Cli

/-! ## Reports -/

def reasonLabel : SkipReason → String
  | .unregistered => "Unregistered"
  | .unreachable => "Unreachable"

/-- a text up to its first line break, which is a line feed with or without a carriage return before it -/
def upToLineBreak : List Char → List Char
  | [] => []
  | '\n' :: _ => []
  | '\r' :: '\n' :: _ => []
  | c :: rest => c :: upToLineBreak rest

/-- The warning for a resource that a document leaves out. It is one line, so a name with a line break cuts it short. -/
def warning (s : Skipped) : String :=
  String.ofList <| upToLineBreak
    ("left out of document resource=" ++ s.id.name ++ " reason=" ++ reasonLabel s.reason).toList

/-- what is reported at a verbosity, unless the environment asks for something else -/
def logFilter (verbosity : Nat) : String :=
  match verbosity with
  | 0 => "warn"
  | 1 => "info,hubql_compiler=debug"
  | _ => "debug,hubql_compiler=trace"

/-! ## Outcomes -/

/-- what comes of a command line: the text printed with the lines of warning, a failure, or a refusal -/
inductive Outcome where
  | printed (text : String) (warnings : List String)
  | failed (message : String)
  | refused (refusal : Refusal)
deriving DecidableEq, Repr

/-- what `compile` prints for a query -/
def compiledText (variablesOnly : Bool) (q : CompiledQuery) : String :=
  (if variablesOnly then "\n".intercalate (q.declarations.map Variable.text) else q.document) ++ "\n"

namespace Command

def options : Command → Options
  | compile _ _ _ _ options => options
  | resources _ options => options

/-- carries out a command on a registry -/
def execute (registry : Registry) : Command → Outcome
  | compile root ids strict variablesOnly _ =>
    match ({ root, ids, strict } : Request).compile registry with
    | .error e => .failed ("error: " ++ e.message)
    | .ok q => .printed (compiledText variablesOnly q) (q.skipped.map warning)
  | resources json _ =>
    if json then .printed (registry.toJson.indented ++ "\n") [] else .printed registry.listing []

/-- carries out a command on the built-in registry; `read` gives the content of a file that can be read -/
def run (read : String → Option ByteArray) (c : Command) : Outcome :=
  match c.options.limits read with
  | .error e => .failed ("error: " ++ e.message)
  | .ok limits => c.execute (GitHub.registry limits)

end Command

/-- what comes of a command line in a directory -/
def run (directory : Directory) (arguments : List String) : Outcome :=
  match Command.parse arguments with
  | .error refusal => .refused refusal
  | .ok command => command.run directory.read

end ResourceQuery.Cli
