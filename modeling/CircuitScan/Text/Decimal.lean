/-!
# CircuitScan.Text.Decimal

Natural numbers in decimal digits. States are counted in 64-bit words, so numbers from 2^64 on name
nothing.
-/

namespace CircuitScan.Text

/-- Where the numbers of a word end. -/
def wordEnd : Nat := Nat.pow 2 64

/-- The value of a decimal digit. -/
def digitValue (c : Char) : Nat := c.toNat - '0'.toNat

/-- The number that digits stand for, read from left to right. -/
def ofDigits (ds : List Char) : Nat := ds.foldl (fun n c => n * 10 + digitValue c) 0

/-- The number that a text of digits stands for. There is at least one digit, and leading zeros do
not count. -/
def decimal? (cs : List Char) : Option Nat :=
  if cs ≠ [] ∧ cs.all Char.isDigit then some (ofDigits cs) else none

/-- A number is told by how it is written. -/
theorem repr_injective : Function.Injective Nat.repr := by
  intro m n h
  have hdigits := congrArg String.toList h
  rw [Nat.toList_repr, Nat.toList_repr] at hdigits
  have hvalue (k : Nat) : Nat.ofDigitChars 10 (Nat.toDigits 10 k) 0 = k :=
    Nat.ofDigitChars_toDigits (by decide) (by decide)
  rw [← hvalue m, hdigits, hvalue]

@[simp] theorem ofDigits_nil : ofDigits [] = 0 := rfl

/-- One more digit makes the number ten times as great, and adds its value. -/
@[simp] theorem ofDigits_concat (ds : List Char) (c : Char) :
    ofDigits (ds ++ [c]) = ofDigits ds * 10 + digitValue c := by
  simp [ofDigits]

@[simp] theorem decimal?_nil : decimal? [] = none := rfl

end CircuitScan.Text
