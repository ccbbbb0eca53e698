import Courier.Toml.Basic

/-!
# Writing TOML texts

A text is written in the plainest of the four notations that can hold it: between double quotes if
nothing has to be escaped, else between single quotes, else between three of either kind, and else
with escapes. `Toml.Notation.of` makes that choice.
-/

namespace Courier.Toml

/-- The longest run of a character in a text that continues a run of `run` of them. -/
def longestRun (c : Char) : (run : Nat) → List Char → Nat
  | run, [] => run
  | run, d :: rest => if d = c then longestRun c (run + 1) rest else max run (longestRun c 0 rest)

/-- Whether a character can only be written as an escape. -/
def needsEscape (c : Char) : Bool :=
  (c.toNat ≤ 0x1F ∧ c ≠ '\t' ∧ c ≠ '\n') ∨ c.toNat = 0x7F

/-- The notations of a text. The long ones may hold line breaks. -/
inductive Notation where
  | basic
  | literal
  | longBasic
  | longLiteral
  deriving DecidableEq, Repr

/-- The notation in which a text is written. -/
def Notation.of (s : List Char) : Notation :=
  let plain := s.all fun c => ! needsEscape c
  let oneLine := '\n' ∉ s
  if plain ∧ '\\' ∉ s ∧ '"' ∉ s ∧ oneLine then .basic
  else if plain ∧ '\'' ∉ s ∧ oneLine then .literal
  else if plain ∧ '\\' ∉ s ∧ longestRun '"' 0 s ≤ 2 then .longBasic
  else if plain ∧ longestRun '\'' 0 s ≤ 2 then .longLiteral
  else if oneLine then .basic
  else .longBasic

/-- A hexadecimal digit in uppercase. -/
def hexDigit (n : Nat) : Char := (Nat.digitChar n).toUpper

/-- A character between double quotes, other than a double quote. -/
def escapeChar (long : Bool) (c : Char) : List Char :=
  if c = '\x08' then ['\\', 'b']
  else if c = '\t' then ['\\', 't']
  else if c = '\n' then if long then ['\n'] else ['\\', 'n']
  else if c = '\x0c' then ['\\', 'f']
  else if c = '\r' then ['\\', 'r']
  else if c = '\\' then ['\\', '\\']
  else if needsEscape c then
    ['\\', 'u', '0', '0', hexDigit (c.toNat / 16), hexDigit (c.toNat % 16)]
  else [c]

/-- A text between double quotes. A quote is escaped where `bare` of them stand before it. -/
def escape (long : Bool) (bare : Nat) : (run : Nat) → List Char → List Char
  | _, [] => []
  | run, c :: rest =>
    if c = '"' then
      if run < bare then '"' :: escape long bare (run + 1) rest
      else '\\' :: '"' :: escape long bare 0 rest
    else escapeChar long c ++ escape long bare 0 rest

/-- A long text begins on a line of its own if it holds a line break. -/
def longStart (s : List Char) : List Char := if '\n' ∈ s then ['\n'] else []

/-- A text in one of the notations. -/
def Notation.write : Notation → List Char → List Char
  | .basic, s => '"' :: (escape false 0 0 s ++ ['"'])
  | .literal, s => '\'' :: (s ++ ['\''])
  | .longBasic, s => ['"', '"', '"'] ++ longStart s ++ escape true 2 0 s ++ ['"', '"', '"']
  | .longLiteral, s => ['\'', '\'', '\''] ++ longStart s ++ s ++ ['\'', '\'', '\'']

/-- A text as it is written in a document. -/
def quote (s : List Char) : List Char := (Notation.of s).write s

end Courier.Toml
