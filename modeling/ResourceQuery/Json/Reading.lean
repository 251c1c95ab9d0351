/-
A text read as JSON, as far as it goes.

A reading has the shape of a JSON value, with the faults of the text at the places where they were met. So every text
has a reading, and who looks at a reading from left to right meets what the text holds, and at last its fault, in the
order of the text. What follows a fault is not read.

A value that nobody asks for is passed over by `skim`: it has to be JSON, but its numbers may have any size and its
strings any code units.
-/
import ResourceQuery.Json.Numeral
import ResourceQuery.Json.Quoted

namespace ResourceQuery.Json

/-- a JSON value, or as much of one as a text holds -/
inductive Reading where
  | null
  | bool (b : Bool)
  | number (n : Except Fault Numeral)
  | string (q : Quoted)
  /-- items, and the fault met after the last of them -/
  | array (items : List Reading) (fault : Option Fault)
  /-- members as keys and values, and the fault met after the last of them -/
  | object (members : List (Quoted × Reading)) (fault : Option Fault)
  /-- a misspelt or cut `null`, `true` or `false` -/
  | broken (f : Fault)
  /-- no value where one is due -/
  | missing (f : Fault)
deriving Inhabited

namespace Reading

/-- fails with a fault, if there is one -/
def check : Option Fault → Except Fault Unit
  | none => .ok ()
  | some f => .error f

mutual

/-- the first fault of a value that is passed over -/
def skim : Reading → Except Fault Unit
  | .null => .ok ()
  | .bool _ => .ok ()
  | .number (.ok _) => .ok ()
  | .number (.error _) => .error .malformed
  | .string q => check q.fault
  | .array items fault => do
    skimItems items
    check fault
  | .object members fault => do
    skimMembers members
    check fault
  | .broken f => .error f
  | .missing f => .error f

def skimItems : List Reading → Except Fault Unit
  | [] => .ok ()
  | item :: rest => do
    item.skim
    skimItems rest

def skimMembers : List (Quoted × Reading) → Except Fault Unit
  | [] => .ok ()
  | m :: rest => do
    skimMember m
    skimMembers rest

def skimMember : Quoted × Reading → Except Fault Unit
  | (key, value) => do
    check key.fault
    value.skim

end

end Reading

end ResourceQuery.Json
