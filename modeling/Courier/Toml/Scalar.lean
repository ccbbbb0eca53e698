import Courier.Toml.Text

/-!
# TOML numbers, dates and times

Readers of unquoted values. Underscores may stand between the digits of a number. Dates and times
are checked for range and otherwise not kept.
-/

namespace Courier.Toml

/-! ## Numbers -/

/-- Digits that continue a number, with single underscores before them. -/
def moreDigits (isDigit : Char → Bool) : List Char → List Char × List Char
  | [] => ([], [])
  | '_' :: c :: rest =>
    if isDigit c then prepend c (moreDigits isDigit rest) else ([], '_' :: c :: rest)
  | c :: rest => if isDigit c then prepend c (moreDigits isDigit rest) else ([], c :: rest)

/-- A run of digits with underscores between them. -/
def digits? (isDigit : Char → Bool) : List Char → Option (List Char × List Char)
  | [] => none
  | c :: rest => if isDigit c then some (prepend c (moreDigits isDigit rest)) else none

/-- An optional sign, and whether it is a minus. -/
def splitSign : List Char → Bool × List Char := Decimal.splitSign

/-- The digits of a whole number: a zero alone, or digits that do not begin with one. -/
def wholeDigits? : List Char → Option (List Char × List Char)
  | '0' :: rest => some (['0'], rest)
  | s => digits? Char.isDigit s

/-- The magnitude of the lowest integer, `2 ^ 63`. -/
def integerBound : Nat := 9223372036854775808

/-- An integer in range. -/
def inRange? (n : Int) : Option Int :=
  if -(integerBound : Int) ≤ n ∧ n < integerBound then some n else none

/-- An integer written in base 16, 8 or 2, behind its mark. -/
def basedInteger? (base : Nat) (s : List Char) : Option (Int × List Char) := do
  let isDigit (c : Char) : Bool := (hexValue? c).any (· < base)
  let (digits, rest) ← digits? isDigit s
  let n ← inRange? (digits.foldl (fun n c => base * n + (hexValue? c).getD 0) 0)
  pure (n, rest)

/-- An integer. -/
def integer? : List Char → Option (Int × List Char)
  | '0' :: 'x' :: rest => basedInteger? 16 rest
  | '0' :: 'o' :: rest => basedInteger? 8 rest
  | '0' :: 'b' :: rest => basedInteger? 2 rest
  | s => do
    let (negative, s) := splitSign s
    let (digits, rest) ← wholeDigits? s
    let n := (Text.digitsValue 0 digits : Int)
    let n ← inRange? (if negative then -n else n)
    pure (n, rest)

/-- The power of ten of a float. -/
def power? : List Char → Option (Int × List Char)
  | c :: rest =>
    if c = 'e' ∨ c = 'E' then
      let (negative, rest) := splitSign rest
      (digits? Char.isDigit rest).map fun (digits, rest) =>
        let n := (Text.digitsValue 0 digits : Int)
        (if negative then -n else n, rest)
    else none
  | [] => none

/-- The digits of a float behind the point. -/
def fraction? : List Char → Option (List Char × List Char)
  | '.' :: rest => digits? Char.isDigit rest
  | _ => none

/-- Whether a number is at least halfway from the largest double to the next power of two, so that
it rounds to infinity. -/
def overflows (d : Decimal) : Bool :=
  d.mantissa ≠ 0 ∧ (309 ≤ d.exponent ∨
    (¬ d.isBelow 0 ∧ (Nat.pow 2 1024 - Nat.pow 2 970) * d.denominator ≤ d.numerator))

/-- A float in digits. It must not round to positive infinity. -/
def digitFloat? (s : List Char) : Option (Decimal.Literal × List Char) := do
  let (negative, s) := splitSign s
  let (whole, rest) ← wholeDigits? s
  let (d, rest) ← match power? rest with
    | some (power, rest) => some (Decimal.mk (Text.digitsValue 0 whole) power, rest)
    | none => do
      let (fraction, rest) ← fraction? rest
      let (power, rest) := (power? rest).getD (0, rest)
      pure (⟨Text.digitsValue 0 (whole ++ fraction), power - fraction.length⟩, rest)
  if ¬ negative ∧ overflows d then none else some (.number negative d, rest)

/-- A float: digits, infinity, or no number. -/
def float? (s : List Char) : Option (Decimal.Literal × List Char) :=
  match digitFloat? s with
  | some read => some read
  | none => match splitSign s with
    | (negative, 'i' :: 'n' :: 'f' :: rest) => some (.infinite negative, rest)
    | (_, 'n' :: 'a' :: 'n' :: rest) => some (.undefined, rest)
    | _ => none

/-! ## Dates and times -/

/-- A number of exactly `count` digits that lies between two bounds. -/
def number? (count low high : Nat) (s : List Char) : Option (Nat × List Char) :=
  let digits := s.take count
  if digits.length = count ∧ digits.all Char.isDigit then
    let n := Text.digitsValue 0 digits
    if low ≤ n ∧ n ≤ high then some (n, s.drop count) else none
  else none

/-- The text behind a mark. -/
def behind? (mark : Char) : List Char → Option (List Char)
  | c :: rest => if c = mark then some rest else none
  | [] => none

/-- The number of days in a month. -/
def daysInMonth (year month : Nat) : Nat :=
  if month = 2 then if year % 4 = 0 ∧ (year % 100 ≠ 0 ∨ year % 400 = 0) then 29 else 28
  else if month ∈ [4, 6, 9, 11] then 30
  else 31

/-- The text behind a date. -/
def date? (s : List Char) : Option (List Char) := do
  let (year, s) ← number? 4 0 9999 s
  let s ← behind? '-' s
  let (month, s) ← number? 2 1 12 s
  let s ← behind? '-' s
  let (_, s) ← number? 2 1 (daysInMonth year month) s
  pure s

/-- The text behind the fraction of a second, if there is one. -/
def skipSecondFraction : List Char → List Char
  | '.' :: c :: rest => if c.isDigit then rest.dropWhile Char.isDigit else '.' :: c :: rest
  | s => s

/-- The text behind a time of day. -/
def time? (s : List Char) : Option (List Char) := do
  let (_, s) ← number? 2 0 23 s
  let s ← behind? ':' s
  let (_, s) ← number? 2 0 59 s
  let s ← behind? ':' s
  let (_, s) ← number? 2 0 60 s
  pure (skipSecondFraction s)

/-- The text behind an offset from universal time. -/
def offset? : List Char → Option (List Char)
  | 'Z' :: rest => some rest
  | 'z' :: rest => some rest
  | c :: rest =>
    if c = '+' ∨ c = '-' then do
      let (_, s) ← number? 2 0 23 rest
      let s ← behind? ':' s
      let (_, s) ← number? 2 0 59 s
      pure s
    else none
  | [] => none

/-- The text behind a time that follows a date, with an optional offset. -/
def timeOfDate? : List Char → Option (List Char)
  | c :: rest =>
    if c = 'T' ∨ c = 't' ∨ c = ' ' then (time? rest).map fun s => (offset? s).getD s else none
  | [] => none

/-- The text behind a date, a time, or both. -/
def dateTime? (s : List Char) : Option (List Char) :=
  match date? s with
  | some rest => some ((timeOfDate? rest).getD rest)
  | none => time? s

/-- The text behind a word. -/
def word? (word : String) (s : List Char) : Option (List Char) :=
  if word.toList.isPrefixOf s then some (s.drop word.length) else none

/-- A value that begins with a digit, a sign or a letter. -/
def scalar? (s : List Char) : Option (Toml × List Char) :=
  match dateTime? s with
  | some rest => some (.dateTime, rest)
  | none => match float? s with
    | some (value, rest) => some (.float value, rest)
    | none => match integer? s with
      | some (value, rest) => some (.integer value, rest)
      | none => match word? "true" s with
        | some rest => some (.boolean true, rest)
        | none => (word? "false" s).map fun rest => (.boolean false, rest)

end Courier.Toml
