import Courier.Text.Natural

/-!
# Decimal literals

A literal is an optional sign, digits with an optional point, and an optional power of ten; or a
name for infinity or for no number. `Decimal` keeps its exact value.
-/

namespace Courier

/-- The number `mantissa * 10 ^ exponent`. -/
structure Decimal where
  mantissa : Nat
  exponent : Int
  deriving DecidableEq, Repr

namespace Decimal

/-- Numerator of the value over `d.denominator`. -/
def numerator (d : Decimal) : Nat := d.mantissa * Nat.pow 10 d.exponent.toNat

/-- A power of ten over which the value is a whole number. -/
def denominator (d : Decimal) : Nat := Nat.pow 10 (-d.exponent).toNat

theorem denominator_pos (d : Decimal) : 0 < d.denominator := Nat.pow_pos (by decide)

/-- Whether the value is below `10 ^ bound`, as far as the number of binary digits tells. -/
def isBelow (d : Decimal) (bound : Int) : Bool :=
  (d.mantissa.log2 + 1 : Int) + d.exponent ≤ bound

/-- What a literal stands for. -/
inductive Literal where
  | number (negative : Bool) (value : Decimal)
  | infinite (negative : Bool)
  | undefined
  deriving DecidableEq, Repr

/-- A text without its leading sign, and whether that sign is a minus. -/
def splitSign : List Char → Bool × List Char
  | '-' :: rest => (true, rest)
  | '+' :: rest => (false, rest)
  | s => (false, s)

/-- A text cut behind its leading digits. -/
def splitDigits (s : List Char) : List Char × List Char :=
  (s.takeWhile Char.isDigit, s.dropWhile Char.isDigit)

/-- The power of ten at the end of a literal: nothing, or the letter `e`, a sign and digits. -/
def power? : List Char → Option Int
  | [] => some 0
  | c :: rest =>
    if c = 'e' ∨ c = 'E' then
      let (negative, digits) := splitSign rest
      (Text.natural? digits).map fun n => if negative then -(n : Int) else n
    else none

/-- An unsigned literal in digits: at least one before or behind the point. -/
def unsigned? (s : List Char) : Option Decimal :=
  let (whole, rest) := splitDigits s
  let (fraction, rest) := match rest with
    | '.' :: rest => splitDigits rest
    | _ => ([], rest)
  if whole = [] ∧ fraction = [] then none
  else (power? rest).map fun power =>
    ⟨Text.digitsValue 0 (whole ++ fraction), power - fraction.length⟩

/-- Reads a literal. The names `inf`, `infinity` and `nan` are taken in either case. -/
def literal? (s : List Char) : Option Literal :=
  let (negative, body) := splitSign s
  match unsigned? body with
  | some value => some (.number negative value)
  | none =>
    let name := String.ofList (body.map Char.toLower)
    if name = "inf" ∨ name = "infinity" then some (.infinite negative)
    else if name = "nan" then some .undefined
    else none

end Decimal
end Courier
