/-
The files that a command can read.

A directory is a table of files by relative path. A path is followed component by component, where a dot or nothing
between slashes stays in place and two dots go back up; what is outside the directory cannot be read, and neither can
a file by a path that is too long.
-/

namespace ResourceQuery.Cli

/-- files by relative path -/
structure Directory where
  files : List (String × ByteArray) := []
deriving Inhabited

namespace Directory

def components (path : String) : List String := (path.toList.splitOn '/').map String.ofList

/-- the names on the way to a file, without those that stay in place -/
def location (path : String) : List String := (components path).filter fun c => c ≠ "" ∧ c ≠ "."

/-- whether some file is inside a folder -/
def hasFolder (d : Directory) (folder : List String) : Bool :=
  d.files.any fun file => folder.isPrefixOf (location file.1) && folder.length < (location file.1).length

/-- the file at the end of a path that starts in a folder -/
def follow (d : Directory) (folder : List String) : List String → Option ByteArray
  | [] => none
  | [name] => (d.files.find? fun file => location file.1 = folder ++ [name]).map Prod.snd
  | c :: rest =>
    if c = "" ∨ c = "." then d.follow folder rest
    else if c = ".." then if folder = [] then none else d.follow folder.dropLast rest
    else if d.hasFolder (folder ++ [c]) then d.follow (folder ++ [c]) rest
    else none

/-- a path has fewer bytes than this -/
def pathBound : Nat := 4096

/-- the content of the file at a relative path -/
def read (d : Directory) (path : String) : Option ByteArray :=
  if path.toList.head? = some '/' ∨ pathBound ≤ path.utf8ByteSize then none else d.follow [] (components path)

end Directory

end ResourceQuery.Cli
