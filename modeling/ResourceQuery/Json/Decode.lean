/-
Values from readings.

A decoder looks at a reading from left to right. It fails with the first thing that is wrong: a fault of the text, or a
mismatch, where the text is JSON so far but not of the shape that is due.

Records are written as an object with one member per field, in any order and among members of other names, or as an
array of the fields in order, of which the last may be left off if they can be absent.
-/
import ResourceQuery.Decimal.Shortest
import ResourceQuery.Json.Document
import ResourceQuery.Text.Escaped

namespace ResourceQuery.Json

/-! ## Mismatches -/

/-- what a text holds in place of the shape that is due -/
inductive Found where
  | null
  | bool (b : Bool)
  | number (n : Numeral)
  | string (s : String)
  | sequence
  | map
deriving DecidableEq, Repr

/-- the shape that is due -/
inductive Shape where
  | limit
  | string
  | sequence
  | map
  /-- a record, by the name that messages give it -/
  | record (label : String)
deriving DecidableEq, Repr

inductive Mismatch where
  | shape (found : Found) (due : Shape)
  /-- an integer that is no page limit -/
  | range (n : Int)
  /-- an array that ends before a field that cannot be absent; `position` is that of the field -/
  | length (position : Nat) (label : String) (fields : Nat)
  | missingField (name : String)
  | duplicateField (name : String)
  | unknownVariant (name : String)
  /-- the name of a variant without the content of the shape `due` -/
  | bareVariant (due : String)
deriving DecidableEq, Repr

/-- why a text does not decode -/
inductive DecodeError where
  | fault (f : Fault)
  | mismatch (m : Mismatch)
deriving DecidableEq, Repr

def Found.text : Found → String
  | null => "null"
  | bool b => "boolean `" ++ (if b then "true" else "false") ++ "`"
  | number n =>
    match n.value? with
    | some (.natural k) => "integer `" ++ toString k ++ "`"
    | some (.negative k) => "integer `" ++ toString k ++ "`"
    | some (.floating x) => "floating point `" ++ Decimal.text x ++ "`"
    | none => "number"
  | string s => "string " ++ Text.escaped s
  | sequence => "sequence"
  | map => "map"

def Shape.text : Shape → String
  | limit => "u32"
  | string => "a string"
  | sequence => "a sequence"
  | map => "a map"
  | record label => label

def Mismatch.message : Mismatch → String
  | shape found due => "invalid type: " ++ found.text ++ ", expected " ++ due.text
  | range n => "invalid value: integer `" ++ toString n ++ "`, expected " ++ Shape.limit.text
  | length position label fields =>
    "invalid length " ++ toString position ++ ", expected " ++ label ++ " with " ++ toString fields ++ " elements"
  | missingField name => "missing field `" ++ name ++ "`"
  | duplicateField name => "duplicate field `" ++ name ++ "`"
  | unknownVariant name => "unknown variant `" ++ name ++ "`, expected `leaf` or `nested`"
  | bareVariant due => "invalid type: unit variant, expected " ++ due

/-- a decoder of one kind of value -/
abbrev Decoder (α : Type) := Reading → Except DecodeError α

/-- a fault as the reason to fail -/
def liftFault {α : Type} (x : Except Fault α) : Except DecodeError α := x.mapError .fault

/-! ## Plain values -/

namespace Reading

/-- The error where another shape is due. What was read is named in it, so a fault in that comes first. -/
def mismatch (due : Shape) : Reading → DecodeError
  | .null => .mismatch (.shape .null due)
  | .bool b => .mismatch (.shape (.bool b) due)
  | .number (.ok n) => if n.value?.isSome then .mismatch (.shape (.number n) due) else .fault .malformed
  | .number (.error f) => .fault f
  | .string q =>
    match q.value with
    | .ok s => .mismatch (.shape (.string s) due)
    | .error f => .fault f
  | .array _ _ => .mismatch (.shape .sequence due)
  | .object _ _ => .mismatch (.shape .map due)
  | .broken f => .fault f
  | .missing f => .fault f

/-- a page limit -/
def limit : Decoder UInt32
  | .number (.ok n) =>
    match n.value? with
    | some (.natural k) => if h : k < UInt32.size then .ok (UInt32.ofNatLT k h) else .error (.mismatch (.range k))
    | some (.negative k) => .error (.mismatch (.range k))
    | some (.floating _) => .error (mismatch .limit (.number (.ok n)))
    | none => .error (.fault .malformed)
  | r => .error (r.mismatch .limit)

def text : Decoder String
  | .string q => liftFault q.value
  | r => .error (r.mismatch .string)

/-- nothing for `null` -/
def optional {α : Type} (d : Decoder α) : Decoder (Option α)
  | .null => .ok none
  | r => some <$> d r

def list {α : Type} (d : Decoder α) : Decoder (List α)
  | .array items fault => do
    let xs ← items.mapM d
    liftFault (check fault)
    return xs
  | r => .error (r.mismatch .sequence)

/-- one member of an object that is read as a map -/
def entry {α : Type} (d : Decoder α) (m : Quoted × Reading) : Except DecodeError (String × α) := do
  let name ← liftFault m.1.value
  let value ← d m.2
  return (name, value)

/-- an object with any keys, as its members in order -/
def map {α : Type} (d : Decoder α) : Decoder (List (String × α))
  | .object members fault => do
    let entries ← members.mapM (entry d)
    liftFault (check fault)
    return entries
  | r => .error (r.mismatch .map)

end Reading

/-! ## Records -/

/-- a field of a record, over the slots `σ` that hold what was read of the record so far -/
structure Field (σ : Type) where
  name : String
  /-- whether a record can do without it -/
  canBeAbsent : Bool
  isRead : σ → Bool
  read : Reading → σ → Except DecodeError σ

/-- a field with a slot of its own -/
def Field.slot {σ β : Type} (name : String) (canBeAbsent : Bool) (d : Decoder β) (get : σ → Option β)
    (set : σ → β → σ) : Field σ where
  name
  canBeAbsent
  isRead s := (get s).isSome
  read r s := set s <$> d r

/-- a kind of record -/
structure Record (σ α : Type) where
  /-- its name in messages -/
  label : String
  /-- in order -/
  fields : List (Field σ)
  /-- slots with nothing read -/
  start : σ
  /-- the record, if no field is missing that has to be there -/
  build : σ → Option α

namespace Record

variable {σ α : Type}

/-- takes the fields from the items of an array -/
def readItems (label : String) (count : Nat) (fault : Option Fault) :
    (position : Nat) → List (Field σ) → List Reading → σ → Except DecodeError σ
  | _, [], [], s => do
    liftFault (Reading.check fault)
    return s
  | _, [], _ :: _, _ => .error (.fault .malformed)
  | position, field :: fields, item :: items, s => do
    let s ← field.read item s
    readItems label count fault (position + 1) fields items s
  | position, field :: fields, [], s => do
    liftFault (Reading.check fault)
    if field.canBeAbsent then readItems label count fault (position + 1) fields [] s
    else .error (.mismatch (.length position label count))

/-- takes one member of an object: a field that was not read before, or something to pass over -/
def readMember (fields : List (Field σ)) (s : σ) (m : Quoted × Reading) : Except DecodeError σ := do
  let name ← liftFault m.1.value
  match fields.find? fun field => field.name = name with
  | some field => if field.isRead s then .error (.mismatch (.duplicateField name)) else field.read m.2 s
  | none => do
    liftFault m.2.skim
    return s

/-- the record, or the first of its fields that is missing -/
def complete (rec : Record σ α) (s : σ) : Except DecodeError α :=
  match rec.build s with
  | some a => .ok a
  | none =>
    let missing := rec.fields.find? fun field => !field.canBeAbsent && !field.isRead s
    .error (.mismatch (.missingField ((missing.map Field.name).getD "")))

def decode (rec : Record σ α) : Decoder α
  | .array items fault => do
    let s ← readItems rec.label rec.fields.length fault 0 rec.fields items rec.start
    rec.complete s
  | .object members fault => do
    let s ← members.foldlM (readMember rec.fields) rec.start
    liftFault (Reading.check fault)
    rec.complete s
  | r => .error (r.mismatch (.record rec.label))

end Record

/-! ## Texts -/

/-- decodes a whole text, which holds nothing after the value -/
def decodeText {α : Type} (d : Decoder α) (text : String) : Except DecodeError α := do
  let document := Document.ofText text
  let a ← d document.reading
  if document.followed then .error (.fault .malformed) else .ok a

end ResourceQuery.Json
