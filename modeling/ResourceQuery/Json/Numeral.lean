/-
Numerals of JSON.

A numeral is an optional minus sign, digits without a leading zero, and optional fraction and exponent parts. `scan`
takes the longest numeral that a text starts with.

As a value a numeral is a natural number below 2^64, a negative integer from -2^63 on, or else a binary floating-point
number. The latter is made from the leading digits that fit below 2^64 and a power of ten; a result that is too large is
out of range.
-/
import ResourceQuery.Json.Fault

namespace ResourceQuery.Json

/-- the parts of a numeral; digits are decimal characters -/
structure Numeral where
  negative : Bool
  digits : List Char
  /-- the digits after the point; empty if there is no point -/
  fraction : List Char
  /-- sign and digits of the exponent -/
  exponent : Option (Bool × List Char)
deriving DecidableEq, Repr

namespace Numeral

/-! ## Scanning -/

/-- leading digits, and what follows them -/
def spanDigits (cs : List Char) : List Char × List Char := (cs.takeWhile Char.isDigit, cs.dropWhile Char.isDigit)

/-- what is wrong where a digit is due -/
def digitDue : List Char → Fault
  | [] => .ended
  | _ => .malformed

/-- digits of which at least one is due -/
def scanSomeDigits (cs : List Char) : Except Fault (List Char × List Char) :=
  let (ds, rest) := spanDigits cs
  if ds = [] then .error (digitDue rest) else .ok (ds, rest)

/-- the digits before the point: a zero stands alone -/
def scanDigits (cs : List Char) : Except Fault (List Char × List Char) := do
  let (ds, rest) ← scanSomeDigits cs
  if 1 < ds.length ∧ ds.head? = some '0' then .error .malformed else .ok (ds, rest)

/-- a fraction, if there is a point -/
def scanFraction (cs : List Char) : Except Fault (List Char × List Char) :=
  match cs with
  | '.' :: rest => scanSomeDigits rest
  | _ => .ok ([], cs)

/-- an optional sign; true for a minus -/
def scanSign (cs : List Char) : Bool × List Char :=
  match cs with
  | '+' :: rest => (false, rest)
  | '-' :: rest => (true, rest)
  | _ => (false, cs)

/-- an exponent, if there is the letter for it -/
def scanExponent (cs : List Char) : Except Fault (Option (Bool × List Char) × List Char) :=
  match cs with
  | c :: rest =>
    if c = 'e' ∨ c = 'E' then do
      let (negative, rest) := scanSign rest
      let (ds, rest) ← scanSomeDigits rest
      return (some (negative, ds), rest)
    else .ok (none, cs)
  | [] => .ok (none, cs)

/-- the numeral after an optional minus sign -/
def scanUnsigned (negative : Bool) (cs : List Char) : Except Fault (Numeral × List Char) := do
  let (digits, rest) ← scanDigits cs
  let (fraction, rest) ← scanFraction rest
  let (exponent, rest) ← scanExponent rest
  return (⟨negative, digits, fraction, exponent⟩, rest)

/-- the numeral at the start of a text, and what follows it -/
def scan (cs : List Char) : Except Fault (Numeral × List Char) :=
  match cs with
  | '-' :: rest => scanUnsigned true rest
  | _ => scanUnsigned false cs

/-! A numeral takes at least one character. -/

theorem length_spanDigits (cs : List Char) : (spanDigits cs).1.length + (spanDigits cs).2.length = cs.length := by
  rw [spanDigits, ← List.length_append, List.takeWhile_append_dropWhile]

theorem length_scanSomeDigits {cs ds rest : List Char} (h : scanSomeDigits cs = .ok (ds, rest)) :
    rest.length < cs.length := by
  have hl := length_spanDigits cs
  simp only [scanSomeDigits] at h
  split at h
  · cases h
  · rename_i hne
    cases h
    have := List.length_pos_iff.2 hne
    omega

theorem length_scanDigits {cs ds rest : List Char} (h : scanDigits cs = .ok (ds, rest)) : rest.length < cs.length := by
  simp only [scanDigits, bind, Except.bind] at h
  split at h
  · cases h
  · rename_i v hv
    split at h
    · cases h
    · cases h
      exact length_scanSomeDigits hv

theorem length_scanFraction {cs ds rest : List Char} (h : scanFraction cs = .ok (ds, rest)) :
    rest.length ≤ cs.length := by
  unfold scanFraction at h
  split at h
  · have := length_scanSomeDigits h
    simp only [List.length_cons]
    omega
  · cases h
    exact Nat.le_refl _

theorem length_scanSign (cs : List Char) : (scanSign cs).2.length ≤ cs.length := by
  unfold scanSign
  split <;> simp

theorem length_scanExponent {cs rest : List Char} {e : Option (Bool × List Char)}
    (h : scanExponent cs = .ok (e, rest)) : rest.length ≤ cs.length := by
  unfold scanExponent at h
  split at h
  · rename_i c tail
    split at h
    · simp only [bind, Except.bind, pure, Except.pure] at h
      split at h
      · cases h
      · rename_i v hv
        cases h
        have := length_scanSomeDigits hv
        have := length_scanSign tail
        simp only [List.length_cons]
        omega
    · cases h
      exact Nat.le_refl _
  · cases h
    exact Nat.le_refl _

theorem length_scanUnsigned {negative : Bool} {cs rest : List Char} {n : Numeral}
    (h : scanUnsigned negative cs = .ok (n, rest)) : rest.length < cs.length := by
  simp only [scanUnsigned, bind, Except.bind, pure, Except.pure] at h
  split at h
  · cases h
  rename_i h₁
  split at h
  · cases h
  rename_i h₂
  split at h
  · cases h
  rename_i h₃
  cases h
  have := length_scanDigits h₁
  have := length_scanFraction h₂
  have := length_scanExponent h₃
  omega

theorem length_scan {cs rest : List Char} {n : Numeral} (h : scan cs = .ok (n, rest)) : rest.length < cs.length := by
  unfold scan at h
  split at h
  · have := length_scanUnsigned h
    simp only [List.length_cons]
    omega
  · exact length_scanUnsigned h

/-! ## Values -/

/-- the value of a numeral -/
inductive Value where
  | natural (n : Nat)
  | negative (n : Int)
  | floating (x : Float)

/-- the number that leading digits make while it stays below 2^64, and the digits after these -/
def significand (n : Nat) : List Char → Nat × List Char
  | [] => (n, [])
  | c :: rest =>
    let next := 10 * n + (c.toNat - '0'.toNat)
    if next < UInt64.size then significand next rest else (n, c :: rest)

/-- ten to a power, as the nearest floating-point number -/
def tenTo (e : Nat) : Float := Float.ofScientific 1 false e

/-- Divides by a power of ten, by at most 10^308 at a time. -/
def scaleDown (x : Float) (e : Nat) : Float :=
  if h : 308 < e then
    if x == 0.0 then x else scaleDown (x / tenTo 308) (e - 308)
  else x / tenTo e
termination_by e
decreasing_by omega

/-- the floating-point number for a significand and a power of ten; none if it is out of range -/
def float? (significand : Nat) (e : Int) : Option Float :=
  let x := significand.toUInt64.toFloat
  if e < 0 then some (scaleDown x e.natAbs)
  else if significand = 0 then some x
  else if 308 < e then none
  else
    let y := x * tenTo e.natAbs
    if y.isInf then none else some y

/-- the number that the exponent part stands for -/
def exponentValue (n : Numeral) : Int :=
  match n.exponent with
  | none => 0
  | some (negative, ds) =>
    let e : Int := Nat.ofDigitChars 10 ds 0
    if negative then -e else e

/-- The numeral as a floating-point number. Digits before the point that no longer fit each raise the power of ten by
one; digits after it each lower it, as long as they fit. -/
def toFloat? (n : Numeral) : Option Float :=
  let (whole, dropped) := significand 0 n.digits
  let (all, unread) := significand whole n.fraction
  let e := n.exponentValue + dropped.length - (n.fraction.length - unread.length : Nat)
  (float? all e).map fun x => if n.negative then -x else x

/-- the value of a numeral; none if it is out of range -/
def value? (n : Numeral) : Option Value :=
  let whole := Nat.ofDigitChars 10 n.digits 0
  if n.fraction = [] ∧ n.exponent = none ∧ n.negative = false ∧ whole < UInt64.size then
    some (.natural whole)
  else if n.fraction = [] ∧ n.exponent = none ∧ n.negative = true ∧ whole ≠ 0 ∧ 2 * whole ≤ UInt64.size then
    some (.negative (-whole))
  else
    n.toFloat?.map .floating

end Numeral

end ResourceQuery.Json
