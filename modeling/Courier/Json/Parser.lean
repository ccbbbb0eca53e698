import Courier.Json.Basic

/-!
# Reading JSON

`Json.parse?` reads a document from its bytes. Blanks may stand around every token. Strings and
numbers are cut out and not examined, apart from the grammar of numbers.
-/

namespace Courier.Json

/-- The bytes that may stand between tokens. -/
def isBlank (b : UInt8) : Bool := b == 0x20 || b == 0x0A || b == 0x09 || b == 0x0D

/-- The rest of a text from its first token on. -/
def skipBlanks (s : Bytes) : Bytes := s.dropWhile isBlank

/-- The rest of a text behind a word, if it begins with that word. -/
def word? (word : String) (s : Bytes) : Option Bytes :=
  if (Bytes.ofText word).isPrefixOf s then some (s.drop (Bytes.ofText word).length) else none

/-- The body of a string up to its closing quote, and the rest behind it. A byte behind a backslash
does not close the string. -/
def stringBody? : Bytes → Option (Bytes × Bytes)
  | [] => none
  | b :: rest =>
    if b = ascii '"' then some ([], rest)
    else if b = ascii '\\' then
      match rest with
      | [] => none
      | c :: rest => (stringBody? rest).map fun (raw, rest) => (b :: c :: raw, rest)
    else (stringBody? rest).map fun (raw, rest) => (b :: raw, rest)

def isDigit (b : UInt8) : Bool := 48 ≤ b && b ≤ 57

/-- A text cut behind its leading digits. -/
def splitDigits (s : Bytes) : Bytes × Bytes := (s.takeWhile isDigit, s.dropWhile isDigit)

/-- The whole part of a number: no zero stands before another digit. -/
def wholePart? (s : Bytes) : Option (Bytes × Bytes) :=
  match splitDigits s with
  | ([], _) => none
  | (b :: more, rest) => if b = ascii '0' ∧ more ≠ [] then none else some (b :: more, rest)

/-- The part of a number behind the point, if there is one. -/
def fractionPart? : Bytes → Option (Bytes × Bytes)
  | [] => some ([], [])
  | b :: rest =>
    if b ≠ ascii '.' then some ([], b :: rest)
    else match splitDigits rest with
      | ([], _) => none
      | (digits, rest) => some (b :: digits, rest)

/-- The sign of a power, if there is one. -/
def splitSign : Bytes → Bytes × Bytes
  | [] => ([], [])
  | b :: rest => if b = ascii '+' ∨ b = ascii '-' then ([b], rest) else ([], b :: rest)

/-- The power of ten of a number, if there is one. -/
def powerPart? : Bytes → Option (Bytes × Bytes)
  | [] => some ([], [])
  | b :: rest =>
    if b ≠ ascii 'e' ∧ b ≠ ascii 'E' then some ([], b :: rest)
    else
      let (sign, rest) := splitSign rest
      match splitDigits rest with
      | ([], _) => none
      | (digits, rest) => some (b :: (sign ++ digits), rest)

/-- An unsigned number and the rest behind it. -/
def unsignedNumber? (s : Bytes) : Option (Bytes × Bytes) := do
  let (whole, rest) ← wholePart? s
  let (fraction, rest) ← fractionPart? rest
  let (power, rest) ← powerPart? rest
  pure (whole ++ fraction ++ power, rest)

/-- A number and the rest behind it. -/
def number? : Bytes → Option (Bytes × Bytes)
  | [] => none
  | b :: rest =>
    if b = ascii '-' then (unsignedNumber? rest).map fun (literal, rest) => (b :: literal, rest)
    else unsignedNumber? (b :: rest)

/-- A value that is neither a string nor an array nor an object. -/
def scalar? (s : Bytes) : Option (Json × Bytes) :=
  match word? "null" s with
  | some rest => some (.null, rest)
  | none => match word? "true" s with
    | some rest => some (.bool true, rest)
    | none => match word? "false" s with
      | some rest => some (.bool false, rest)
      | none => (number? s).map fun (literal, rest) => (.number literal, rest)

mutual

/-- A value and the rest behind it. Each step into the value takes one unit of `fuel`. -/
def value? : (fuel : Nat) → Bytes → Option (Json × Bytes)
  | 0, _ => none
  | fuel + 1, s =>
    match skipBlanks s with
    | [] => none
    | b :: rest =>
      if b = ascii '"' then (stringBody? rest).map fun (raw, rest) => (.string raw, rest)
      else if b = ascii '[' then
        match skipBlanks rest with
        | [] => none
        | c :: after =>
          if c = ascii ']' then some (.array [], after)
          else (elements? fuel (c :: after)).map fun (elements, rest) => (.array elements, rest)
      else if b = ascii '\x7b' then
        match skipBlanks rest with
        | [] => none
        | c :: after =>
          if c = ascii '\x7d' then some (.object [], after)
          else (members? fuel (c :: after)).map fun (members, rest) => (.object members, rest)
      else scalar? (b :: rest)

/-- The elements of an array, of which there is one more, and the rest behind its bracket. -/
def elements? : (fuel : Nat) → Bytes → Option (List Json × Bytes)
  | 0, _ => none
  | fuel + 1, s =>
    match value? fuel s with
    | none => none
    | some (element, rest) =>
      match skipBlanks rest with
      | [] => none
      | b :: rest =>
        if b = ascii ',' then (elements? fuel rest).map fun (more, rest) => (element :: more, rest)
        else if b = ascii ']' then some ([element], rest)
        else none

/-- The members of an object, of which there is one more, and the rest behind its brace. -/
def members? : (fuel : Nat) → Bytes → Option (List (Bytes × Json) × Bytes)
  | 0, _ => none
  | fuel + 1, s =>
    match skipBlanks s with
    | [] => none
    | b :: rest =>
      if b ≠ ascii '"' then none
      else match stringBody? rest with
        | none => none
        | some (name, rest) =>
          match skipBlanks rest with
          | [] => none
          | b :: rest =>
            if b ≠ ascii ':' then none
            else match value? fuel rest with
              | none => none
              | some (value, rest) =>
                match skipBlanks rest with
                | [] => none
                | b :: rest =>
                  if b = ascii ',' then
                    (members? fuel rest).map fun (more, rest) => ((name, value) :: more, rest)
                  else if b = ascii '\x7d' then some ([(name, value)], rest)
                  else none

end

/-- The document that a text is. Two units of fuel for a byte are enough. -/
def parse? (s : Bytes) : Option Json :=
  match value? (2 * s.length + 2) s with
  | some (value, rest) => if skipBlanks rest = [] then some value else none
  | none => none

end Courier.Json
