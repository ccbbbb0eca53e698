/-!
# Natural numbers in decimal

The value of a run of decimal digits, and unsigned 64-bit words written in decimal.
-/

namespace Courier.Text

/-- The value of a decimal digit. -/
def digitValue (c : Char) : Nat := c.toNat - 48

/-- The value of a run of decimal digits that continues one of value `start`. -/
def digitsValue (start : Nat) (s : List Char) : Nat :=
  s.foldl (fun n c => 10 * n + digitValue c) start

theorem digitsValue_append (start : Nat) (s t : List Char) :
    digitsValue start (s ++ t) = digitsValue (digitsValue start s) t := by
  simp [digitsValue]

/-- The natural number that a nonempty run of ASCII digits stands for. -/
def natural? (s : List Char) : Option Nat :=
  if s ≠ [] ∧ s.all Char.isDigit then some (digitsValue 0 s) else none

/-- A text without the plus sign it may begin with. -/
def withoutPlus : List Char → List Char
  | '+' :: rest => rest
  | s => s

/-- One more than the largest 64-bit word, `2 ^ 64`. -/
abbrev wordBound : Nat := 18446744073709551616

/-- The 64-bit word that a text stands for: digits after an optional plus sign, in range. -/
def word? (s : List Char) : Option Nat :=
  (natural? (withoutPlus s)).filter (· < wordBound)

end Courier.Text
