/-
The shortest decimal for a binary floating-point number.

A finite number stands for all reals that round to it. Among the decimals in that interval `shortest?` takes one with
the fewest digits, and of these the nearest to the number. It compares in natural numbers only: a number is a fraction
over a power of two, and for each count of digits the two neighbours of the number on the decimal grid are tried.
-/

namespace ResourceQuery.Decimal

/-- a positive number as a fraction, with the ends of the interval that rounds to it over the same denominator -/
structure Interval where
  low : Nat
  value : Nat
  high : Nat
  denominator : Nat
  /-- whether the ends round to the number as well -/
  closed : Bool
deriving Repr

/-- the interval of the number with the given bits; its sign is ignored -/
def Interval.ofBits (bits : UInt64) : Interval :=
  let exponent := (bits.toNat / 0x10000000000000) % 2048
  let fraction := bits.toNat % 0x10000000000000
  let mantissa := if exponent = 0 then fraction else 0x10000000000000 + fraction
  -- in quarters of the last place: below a power of two the numbers are twice as dense
  let below := if fraction = 0 ∧ 1 < exponent then 1 else 2
  let place := max exponent 1
  let (up, down) := if 1077 ≤ place then (Nat.pow 2 (place - 1077), 1) else (1, Nat.pow 2 (1077 - place))
  { low := (4 * mantissa - below) * up
    value := 4 * mantissa * up
    high := (4 * mantissa + 2) * up
    denominator := down
    closed := mantissa % 2 = 0 }

/-- the fraction `n / 10 ^ e` as numerator and denominator -/
def scaled (n : Nat) (e : Int) (denominator : Nat) : Nat × Nat :=
  if e < 0 then (n * Nat.pow 10 e.natAbs, denominator) else (n, denominator * Nat.pow 10 e.natAbs)

/-- whether `c * 10 ^ e` rounds to the number -/
def Interval.holds (i : Interval) (c : Nat) (e : Int) : Bool :=
  let (low, d) := scaled i.low e i.denominator
  let (high, _) := scaled i.high e i.denominator
  if i.closed then low ≤ c * d && c * d ≤ high else low < c * d && c * d < high

/-- the decimal of the interval on the grid of step `10 ^ e`, if there is one; of two, the nearer to the number -/
def Interval.onGrid? (i : Interval) (e : Int) : Option Nat :=
  let (n, d) := scaled i.value e i.denominator
  let c := n / d
  let nearerBelow := 2 * (n % d) < d ∨ (2 * (n % d) = d ∧ c % 2 = 0)
  match i.holds c e, i.holds (c + 1) e with
  | true, true => some (if nearerBelow then c else c + 1)
  | true, false => some c
  | false, true => some (c + 1)
  | false, false => none

/-- the least power of ten above a positive number, as its exponent -/
def Interval.magnitude (i : Interval) : Int :=
  if i.denominator ≤ i.value then (Nat.toDigits 10 (i.value / i.denominator)).length
  else 1 - (((List.range 400).find? fun j => i.denominator ≤ i.value * Nat.pow 10 j).getD 0 : Nat)

/-- digits, and the exponent of the last of them -/
structure Digits where
  digits : Nat
  exponent : Int
deriving DecidableEq, Repr

/-- the fewest digits that read back as the positive number with the given bits -/
def shortest? (bits : UInt64) : Option Digits :=
  let i := Interval.ofBits bits
  (List.range 17).findSome? fun (n : Nat) =>
    let e := i.magnitude - (n + 1 : Nat)
    (i.onGrid? e).map fun c => ⟨c, e⟩

/-- Digits with a decimal point: in place if the first digit stands for at least 10^-5 and for less than 10^16, else
after the first digit, with an exponent. -/
def Digits.text (d : Digits) : String :=
  let all := Nat.toDigits 10 d.digits
  let kept := (all.reverse.dropWhile (· = '0')).reverse
  let leading : Int := d.exponent + all.length - 1
  let chars :=
    if leading < -5 ∨ 15 < leading then
      kept.take 1 ++ (if kept.length ≤ 1 then [] else '.' :: kept.drop 1) ++
        ['e', if leading < 0 then '-' else '+'] ++ Nat.toDigits 10 leading.natAbs
    else if leading < 0 then ['0', '.'] ++ List.replicate (leading.natAbs - 1) '0' ++ kept
    else
      let whole := leading.natAbs + 1
      let padded := kept ++ List.replicate (whole - kept.length) '0'
      padded.take whole ++ '.' :: (if padded.length ≤ whole then ['0'] else padded.drop whole)
  String.ofList chars

/-- the text of a finite floating-point number -/
def text (x : Float) : String :=
  let bits := x.toBits
  (if 0x8000000000000000 ≤ bits then "-" else "") ++
    if bits = 0 ∨ bits = 0x8000000000000000 then "0.0" else ((shortest? bits).map Digits.text).getD ""

end ResourceQuery.Decimal
