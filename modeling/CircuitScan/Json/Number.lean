import CircuitScan.Json.Reader
import CircuitScan.Text.Decimal

/-!
# CircuitScan.Json.Number

Numbers. Only natural numbers below 2^64 that are written as plain digits have a value here; all
others merely have to be well formed and not too great.

1. The significand of a number is made of its digits, as far as they stay below 2^64. A digit of
   the integer part that does not fit raises the exponent, and one of the fraction is dropped.
2. A number is too great if the product of its significand and its power of ten, both rounded to
   double precision, would round to infinity.
-/

namespace CircuitScan.Json

/-! ## Double precision -/

/-- The nearest number with at most 53 significant bits; of two, the one with an even last bit. -/
def roundDouble (n : Nat) : Nat :=
  let shift := Nat.log2 n + 1 - 53
  let unit := Nat.pow 2 shift
  let low := n / unit
  let rest := n % unit
  if 2 * rest < unit || 2 * rest = unit && low % 2 = 0 then low * unit else (low + 1) * unit

/-- The least number that rounds to infinity. -/
def infinityStart : Nat := Nat.pow 2 1024 - Nat.pow 2 970

/-- Whether `significand * 10 ^ exponent` rounds to infinity. -/
def isTooGreat (significand : Nat) (exponent : Int) : Bool :=
  significand ≠ 0 && 0 ≤ exponent &&
    (308 < exponent ||
      infinityStart ≤ roundDouble significand * roundDouble (Nat.pow 10 exponent.toNat))

/-! ## Digits -/

/-- A significand under construction, and how many digits it could not take. -/
structure Significand where
  value : Nat := 0
  overflow : Nat := 0

/-- Takes a digit, unless the significand would leave its range or a digit was left out before. -/
def Significand.push (s : Significand) (c : Char) : Significand :=
  let value := s.value * 10 + Text.digitValue c
  if s.overflow = 0 && value < Text.wordEnd then { s with value }
  else { s with overflow := s.overflow + 1 }

/-- Takes the leading digits off a text. -/
def digits : Reader (List Char) := fun cs => .ok (cs.span Char.isDigit)

/-! ## Parts -/

/-- The fault of a number that ends before a digit. A skimmed number is malformed even where the
text ends. -/
def missingDigit (rigor : Rigor) : Reader α := do
  match rigor, (← get).head? with
  | .full, none => throw .truncated
  | _, _ => throw .malformed

/-- At least one digit. -/
def someDigits (rigor : Rigor) : Reader (List Char) := do
  match ← digits with
  | [] => missingDigit rigor
  | ds => return ds

/-- The integer part: a zero alone, or digits with no zero in front. -/
def integerPart (rigor : Rigor) : Reader (List Char) := do
  match ← someDigits rigor with
  | '0' :: _ :: _ => throw .malformed
  | ds => return ds

/-- The digits of the fraction, if there is a point. -/
def fractionPart (rigor : Rigor) : Reader (Option (List Char)) := do
  match (← get).head? with
  | some '.' =>
    skip
    return some (← someDigits rigor)
  | _ => return none

/-- Takes off a sign and says whether it was a minus. -/
def exponentSign : Reader Bool := do
  match (← get).head? with
  | some '+' =>
    skip
    return false
  | some '-' =>
    skip
    return true
  | _ => return false

/-- The exponent, if there is one. -/
def exponentPart (rigor : Rigor) : Reader (Option Int) := do
  match (← get).head? with
  | some 'e' | some 'E' =>
    skip
    let negative ← exponentSign
    let ds ← someDigits rigor
    let n : Int := Text.ofDigits ds
    return some (if negative then -n else n)
  | _ => return none

/-! ## Numbers -/

/-- The parts of a number. -/
structure Numeral where
  negative : Bool
  integer : List Char
  fraction : Option (List Char)
  exponent : Option Int

namespace Numeral

/-- The significand of the integer part. -/
def integerSignificand (n : Numeral) : Significand := n.integer.foldl Significand.push {}

/-- Whether the number is beyond double precision. Plain digits that fit a word never are. -/
def isTooGreat (n : Numeral) : Bool :=
  let whole := n.integerSignificand
  let all := (n.fraction.getD []).foldl Significand.push { whole with overflow := 0 }
  let taken := (n.fraction.getD []).length - all.overflow
  Json.isTooGreat all.value (whole.overflow - taken + n.exponent.getD 0)

/-- The value of a natural number that is written as plain digits and fits a word. -/
def natural? (n : Numeral) : Option Nat :=
  let whole := n.integerSignificand
  if n.negative || n.fraction.isSome || n.exponent.isSome || whole.overflow ≠ 0 then none
  else some whole.value

end Numeral

/-- A number behind its sign. -/
def numeral (rigor : Rigor) (negative : Bool) : Reader Numeral := do
  let integer ← integerPart rigor
  let fraction ← fractionPart rigor
  let exponent ← exponentPart rigor
  return { negative, integer, fraction, exponent }

/-- A number; the result is its value if it is natural. -/
def number (rigor : Rigor) : Reader (Option Nat) := do
  let negative := (← get).head? = some '-'
  if negative then skip
  let n ← numeral rigor negative
  if rigor = .full && n.isTooGreat then throw .malformed
  return n.natural?

end CircuitScan.Json
