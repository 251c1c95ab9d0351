/-
Page limits from a configuration file and from options.

A file that is named has to be readable and well-formed, even if the options override all that it says. Then each limit
is the option's, else the file's, else the usual one, and neither may be zero.
-/
import ResourceQuery.Cli.Command
import ResourceQuery.Json.Schema

namespace ResourceQuery.Cli

/-- why there are no page limits -/
inductive ConfigError where
  | unreadable (path : String)
  | invalid (path : String) (cause : Json.DecodeError)
  | zeroPageLimit
  | zeroNestedPageLimit
deriving DecidableEq, Repr

/-- What is said of an error. Of a file it is given up to the path: what follows is the cause, in the system's words for
a file that cannot be read, and in the reader's words and with the place for one that is not well-formed. -/
def ConfigError.message : ConfigError → String
  | unreadable path => "failed to read '" ++ path ++ "'"
  | invalid path _ => "invalid config '" ++ path ++ "'"
  | zeroPageLimit => "pageLimit must be at least 1"
  | zeroNestedPageLimit => "nestedPageLimit must be at least 1"

/-- the limits that the file at a path states; `read` gives the content of a file that can be read -/
def limitsAt (read : String → Option ByteArray) (path : String) : Except ConfigError PageLimits :=
  match (read path).bind String.fromUTF8? with
  | none => .error (.unreadable path)
  | some text => (PageLimits.ofText text).mapError (.invalid path)

/-- the limits before options override them: those of the file, if one is named -/
def Options.fileLimits (read : String → Option ByteArray) (o : Options) : Except ConfigError PageLimits :=
  match o.config with
  | none => .ok {}
  | some path => limitsAt read path

/-- the page limits that options and files ask for -/
def Options.limits (read : String → Option ByteArray) (o : Options) : Except ConfigError PageLimits := do
  let file ← o.fileLimits read
  let limits : PageLimits := ⟨o.pageLimit.getD file.page, o.nestedPageLimit.getD file.nested⟩
  if limits.page = 0 then .error .zeroPageLimit
  else if limits.nested = 0 then .error .zeroNestedPageLimit
  else .ok limits

end ResourceQuery.Cli
