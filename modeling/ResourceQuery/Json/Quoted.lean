/-
Quoted strings of JSON, as they are read.

What a quoted string holds is a row of pieces: characters, and the 16-bit code units that `\u` escapes name. A string
that is kept has to be one of Unicode characters, so there a code unit that is half of a surrogate pair needs its other
half; in a string that is passed over, any code unit will do. `scan` reads the pieces up to the closing quote or the
first fault; `value` puts the characters together.
-/
import ResourceQuery.Json.Fault

namespace ResourceQuery.Json

/-- a character, or a code unit named by an escape -/
inductive Piece where
  | char (c : Char)
  | unit (code : Nat)
deriving DecidableEq, Repr

/-- the pieces of a quoted string, and the fault that cuts it short, if any -/
structure Quoted where
  pieces : List Piece
  fault : Option Fault
deriving DecidableEq, Repr

namespace Quoted

/-- no string where one is due -/
def missing (f : Fault) : Quoted := ⟨[], some f⟩

/-! ## Scanning -/

/-- the character that a one-letter escape stands for -/
def unescape? : Char → Option Char
  | '"' => some '"'
  | '\\' => some '\\'
  | '/' => some '/'
  | 'b' => some '\x08'
  | 'f' => some '\x0c'
  | 'n' => some '\n'
  | 'r' => some '\r'
  | 't' => some '\t'
  | _ => none

def hexValue? (c : Char) : Option Nat :=
  if c.isDigit then some (c.toNat - '0'.toNat)
  else if 'a' ≤ c ∧ c ≤ 'f' then some (c.toNat - 'a'.toNat + 10)
  else if 'A' ≤ c ∧ c ≤ 'F' then some (c.toNat - 'A'.toNat + 10)
  else none

/-- the code unit that four hexadecimal digits name -/
def unit? (a b c d : Char) : Option Nat := do
  let a ← hexValue? a
  let b ← hexValue? b
  let c ← hexValue? c
  let d ← hexValue? d
  return ((a * 16 + b) * 16 + c) * 16 + d

/-- What is wrong where four hexadecimal digits are due and are not there. The text ends too early if fewer than four
bytes of it are left. -/
def unitDue (cs : List Char) : Fault :=
  if (cs.take 4).foldl (fun n c => n + c.utf8Size) 0 < 4 then .ended else .malformed

def cons (p : Piece) : Quoted × List Char → Quoted × List Char
  | (q, rest) => (⟨p :: q.pieces, q.fault⟩, rest)

/-- The string whose opening quote was just read, and what follows its closing quote. After a fault nothing follows. -/
def scan : List Char → Quoted × List Char
  | [] => (⟨[], some .ended⟩, [])
  | '"' :: rest => (⟨[], none⟩, rest)
  | '\\' :: 'u' :: a :: b :: c :: d :: rest =>
    match unit? a b c d with
    | some code => cons (.unit code) (scan rest)
    | none => (⟨[], some (unitDue [a, b, c, d])⟩, [])
  | '\\' :: 'u' :: rest => (⟨[], some (unitDue rest)⟩, [])
  | '\\' :: c :: rest =>
    match unescape? c with
    | some c => cons (.char c) (scan rest)
    | none => (⟨[], some .malformed⟩, [])
  | ['\\'] => (⟨[], some .ended⟩, [])
  | c :: rest => if c < ' ' then (⟨[], some .malformed⟩, []) else cons (.char c) (scan rest)

/-! ## Values -/

/-- the first half of a surrogate pair -/
def isLeading (code : Nat) : Bool := 0xD800 ≤ code && code < 0xDC00

/-- the second half of a surrogate pair -/
def isTrailing (code : Nat) : Bool := 0xDC00 ≤ code && code < 0xE000

/-- the character of a surrogate pair -/
def pair (leading trailing : Nat) : Char := Char.ofNat (0x10000 + (leading - 0xD800) * 0x400 + (trailing - 0xDC00))

/-- The characters of the pieces, up to the first fault; `fault` is the one that the pieces end with. -/
def decode (fault : Option Fault) : List Piece → Except Fault (List Char)
  | [] =>
    match fault with
    | none => .ok []
    | some f => .error f
  | .char c :: rest => (decode fault rest).map (c :: ·)
  | .unit code :: rest =>
    if isTrailing code then .error .malformed
    else if isLeading code then
      match rest with
      | .unit code' :: rest =>
        if isTrailing code' then (decode fault rest).map (pair code code' :: ·) else .error .malformed
      | .char _ :: _ => .error .malformed
      | [] => .error (fault.getD .malformed)
    else (decode fault rest).map (Char.ofNat code :: ·)

/-- the string, where it is kept -/
def value (q : Quoted) : Except Fault String := (decode q.fault q.pieces).map String.ofList

theorem length_scan_le (cs : List Char) : (scan cs).2.length ≤ cs.length := by
  fun_induction scan cs <;> simp_all [cons] <;> omega

end Quoted

end ResourceQuery.Json
