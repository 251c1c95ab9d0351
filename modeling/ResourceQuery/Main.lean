/-
The command line program. It reads the one file that a command names, and prints what comes of the command.
-/
import ResourceQuery.Cli.Run

namespace ResourceQuery.Cli

def usageText : String :=
  "Usage:\n" ++
  "  compile [OPTIONS] <ROOT> [RESOURCE]...   print a query document\n" ++
  "  resources [OPTIONS]                      list the registered resources\n" ++
  "\n" ++
  "Options:\n" ++
  "      --config <FILE>            JSON file with pageLimit and nestedPageLimit\n" ++
  "      --page-limit <N>           page size for connections (usually 100)\n" ++
  "      --nested-page-limit <N>    page size for searches (usually 25)\n" ++
  "      --strict                   compile: fail if something has no place in the document\n" ++
  "      --variables                compile: print the variables instead of the document\n" ++
  "      --json                     resources: print the registry as JSON\n" ++
  "  -v                             report more; may be repeated\n" ++
  "  -h, --help                     print this text\n"

/-- the content of the file that a command names, if it can be read -/
def contents (command : Command) : IO (String → Option ByteArray) := do
  match command.options.config with
  | none => return fun _ => none
  | some path =>
    try
      let bytes ← IO.FS.readBinFile path
      return fun p => if p = path then some bytes else none
    catch _ => return fun _ => none

/-- prints an outcome; the answer is the exit status -/
def report : Outcome → IO UInt32
  | .printed text warnings => do
    for w in warnings do
      IO.eprintln ("WARN " ++ w)
    IO.print text
    return 0
  | .failed message => do
    IO.eprintln message
    return 1
  | .refused .help => do
    IO.print usageText
    return 0
  | .refused .usage => do
    IO.eprint usageText
    return 2

end ResourceQuery.Cli

open ResourceQuery.Cli in
def main (arguments : List String) : IO UInt32 := do
  match Command.parse arguments with
  | .error refusal => report (.refused refusal)
  | .ok command => report (command.run (← contents command))
