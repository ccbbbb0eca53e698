import Courier.Binary64
import Courier.Decimal
import Courier.Text.Blank
import Courier.Timestamp

/-!
# Durations in seconds

Servers state durations as decimal numbers of seconds. `Seconds.nanos?` reads such a text as a
double and gives its nanoseconds, at most those of a day. A negative number is refused unless it
is so small that it rounds to zero.
-/

namespace Courier.Seconds

/-- Seconds in a day, the longest duration that is read. -/
def day : Nat := 24 * 60 * 60

/-- Nanoseconds in a day. -/
def dayNanos : Nat := day * nanosPerSecond

/-- The double nearest to a decimal, unless the decimal is a day or more. -/
def belowDay? (d : Decimal) : Option Binary64 :=
  if d.mantissa = 0 ∨ d.isBelow (-400) then some ⟨0, 0⟩
  else if 7 ≤ d.exponent then none
  else if day * d.denominator ≤ d.numerator then none
  else some (Binary64.ofRatio d.numerator d.denominator)

/-- The nanoseconds that a literal stands for, in seconds and up to a day. -/
def ofLiteral? : Decimal.Literal → Option Nat
  | .number negative d =>
    match belowDay? d with
    | none => if negative then none else some dayNanos
    | some x =>
      if negative ∧ x.significand ≠ 0 then none
      else some (min (x.inUnits nanosPerSecond) dayNanos)
  | .infinite negative => if negative then none else some dayNanos
  | .undefined => none

/-- The nanoseconds of a duration written in seconds, up to a day. Blanks around it are allowed. -/
def nanos? (s : List Char) : Option Nat :=
  (Decimal.literal? (Text.trim s)).bind ofLiteral?

/-- No duration longer than a day is read. -/
theorem nanos?_le {s : List Char} {n : Nat} (h : nanos? s = some n) : n ≤ dayNanos := by
  obtain ⟨l, -, hl⟩ := Option.bind_eq_some_iff.1 h
  cases l with
  | number negative d =>
    simp only [ofLiteral?] at hl
    split at hl
    · split at hl
      · simp at hl
      · simp at hl; omega
    · split at hl
      · simp at hl
      · simp only [Option.some.injEq] at hl; omega
  | infinite negative =>
    simp only [ofLiteral?] at hl
    split at hl
    · simp at hl
    · simp at hl; omega
  | undefined => simp [ofLiteral?] at hl

end Courier.Seconds
