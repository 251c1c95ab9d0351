/-
JSON documents as they are written.

A written document has natural numbers, strings, arrays and objects; its objects keep their members in order. `write`
is the one printer. Its layout says what stands before an item and after a colon: nothing in compact text; in indented
text a line break with two spaces per level, and one space.
-/

namespace ResourceQuery

/-- a JSON document that this library writes -/
inductive Json where
  | number (n : Nat)
  | string (s : String)
  | array (items : List Json)
  | object (members : List (String × Json))
deriving Repr, Inhabited

namespace Json

/-! ## Strings -/

/-- A quote, a backslash and the characters below the space are escaped, the latter by a letter where there is one. -/
def escapeChar (c : Char) : List Char :=
  match c with
  | '"' => ['\\', '"']
  | '\\' => ['\\', '\\']
  | '\x08' => ['\\', 'b']
  | '\x0c' => ['\\', 'f']
  | '\n' => ['\\', 'n']
  | '\r' => ['\\', 'r']
  | '\t' => ['\\', 't']
  | c =>
    if c < ' ' then ['\\', 'u', '0', '0', Nat.digitChar (c.toNat / 16), Nat.digitChar (c.toNat % 16)] else [c]

def quote (s : String) : List Char := '"' :: s.toList.flatMap escapeChar ++ ['"']

/-! ## Layouts -/

/-- the blanks between the tokens of a document -/
structure Layout where
  /-- before an item or a closing bracket, by depth -/
  lineBreak : Nat → List Char
  /-- after a colon -/
  gap : List Char

namespace Layout

def compact : Layout := ⟨fun _ => [], []⟩

def indented : Layout := ⟨fun depth => '\n' :: List.replicate (2 * depth) ' ', [' ']⟩

end Layout

/-! ## Writing -/

mutual

/-- the text of a document at a depth; empty brackets are written together -/
def write (layout : Layout) (depth : Nat) : Json → List Char
  | .number n => Nat.toDigits 10 n
  | .string s => quote s
  | .array [] => ['[', ']']
  | .array (item :: rest) =>
    '[' :: layout.lineBreak (depth + 1) ++ item.write layout (depth + 1) ++
      writeItems layout (depth + 1) rest ++ layout.lineBreak depth ++ [']']
  | .object [] => ['\x7b', '\x7d']
  | .object (m :: rest) =>
    '\x7b' :: layout.lineBreak (depth + 1) ++ writeMember layout (depth + 1) m ++
      writeMembers layout (depth + 1) rest ++ layout.lineBreak depth ++ ['\x7d']

/-- the items after the first -/
def writeItems (layout : Layout) (depth : Nat) : List Json → List Char
  | [] => []
  | item :: rest => ',' :: layout.lineBreak depth ++ item.write layout depth ++ writeItems layout depth rest

/-- the members after the first -/
def writeMembers (layout : Layout) (depth : Nat) : List (String × Json) → List Char
  | [] => []
  | m :: rest => ',' :: layout.lineBreak depth ++ writeMember layout depth m ++ writeMembers layout depth rest

def writeMember (layout : Layout) (depth : Nat) : String × Json → List Char
  | (key, value) => quote key ++ ':' :: layout.gap ++ value.write layout depth

end

def text (layout : Layout) (j : Json) : String := String.ofList (j.write layout 0)

/-- text without blanks -/
def compact (j : Json) : String := j.text .compact

/-- text with a line for each item, indented by two spaces per level -/
def indented (j : Json) : String := j.text .indented

end Json

end ResourceQuery
