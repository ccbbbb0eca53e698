import Courier.Bytes

/-!
# JSON string literals

What stands between the quotes of a JSON string is kept as it is written and read in one of three
ways: as text (`Json.text?`), as raw bytes (`Json.rawBytes?`), or not at all, when it only has to be
well formed (`Json.isPlain`). `Json.escape` writes a byte string between quotes.
-/

namespace Courier.Json

/-- The byte of an ASCII character. -/
abbrev ascii (c : Char) : UInt8 := c.toUInt8

/-! ## Writing -/

/-- A hexadecimal digit in lowercase. -/
def hexDigit (n : Nat) : UInt8 := ascii (Nat.digitChar n)

/-- A byte as it stands between quotes: a control character or one that would end or escape is
written with a backslash. -/
def escapeByte (b : UInt8) : Bytes :=
  if b = ascii '"' then [ascii '\\', ascii '"']
  else if b = ascii '\\' then [ascii '\\', ascii '\\']
  else if b = 8 then [ascii '\\', ascii 'b']
  else if b = 9 then [ascii '\\', ascii 't']
  else if b = 10 then [ascii '\\', ascii 'n']
  else if b = 12 then [ascii '\\', ascii 'f']
  else if b = 13 then [ascii '\\', ascii 'r']
  else if b < 0x20 then
    [ascii '\\', ascii 'u', ascii '0', ascii '0', hexDigit (b.toNat / 16), hexDigit (b.toNat % 16)]
  else [b]

/-- A byte string as it stands between quotes. -/
def escape (b : Bytes) : Bytes := b.flatMap escapeByte

/-! ## Reading -/

/-- What a part of a literal contributes: a byte, or a UTF-16 unit given by its number. -/
inductive Piece where
  | byte (value : UInt8)
  | unit (value : Nat)
  deriving DecidableEq, Repr

/-- The value of a hexadecimal digit. -/
def hexValue? (b : UInt8) : Option Nat :=
  let n := b.toNat
  if 48 ≤ n ∧ n ≤ 57 then some (n - 48)
  else if 97 ≤ n ∧ n ≤ 102 then some (n - 87)
  else if 65 ≤ n ∧ n ≤ 70 then some (n - 55)
  else none

/-- The number of four hexadecimal digits. -/
def unit? (a b c d : UInt8) : Option Nat := do
  let a ← hexValue? a
  let b ← hexValue? b
  let c ← hexValue? c
  let d ← hexValue? d
  pure (((a * 16 + b) * 16 + c) * 16 + d)

/-- The byte that a letter behind a backslash stands for. -/
def unescape? (letter : UInt8) : Option UInt8 :=
  if letter = ascii '"' ∨ letter = ascii '\\' ∨ letter = ascii '/' then some letter
  else if letter = ascii 'b' then some 8
  else if letter = ascii 't' then some 9
  else if letter = ascii 'n' then some 10
  else if letter = ascii 'f' then some 12
  else if letter = ascii 'r' then some 13
  else none

/-- The pieces of a literal, if every backslash in it begins an escape. -/
def pieces? : Bytes → Option (List Piece)
  | [] => some []
  | b :: rest =>
    if b ≠ ascii '\\' then (pieces? rest).map (.byte b :: ·)
    else match rest with
      | [] => none
      | letter :: rest =>
        if letter ≠ ascii 'u' then
          (unescape? letter).bind fun b => (pieces? rest).map (.byte b :: ·)
        else match rest with
          | a :: b :: c :: d :: rest =>
            (unit? a b c d).bind fun n => (pieces? rest).map (.unit n :: ·)
          | _ => none

/-- Whether a unit is the first of a pair. -/
def isLeading (n : Nat) : Bool := 0xD800 ≤ n && n ≤ 0xDBFF

/-- Whether a unit is the second of a pair. -/
def isTrailing (n : Nat) : Bool := 0xDC00 ≤ n && n ≤ 0xDFFF

/-- The number of the character that a pair stands for. -/
def joinPair (leading trailing : Nat) : Nat :=
  0x10000 + (leading - 0xD800) * 0x400 + (trailing - 0xDC00)

/-- The UTF-8 scheme applied to a number below `0x110000`, be it a character or a unit of a pair. -/
def utf8 (n : Nat) : Bytes :=
  let tail (k : Nat) : UInt8 := UInt8.ofNat (0x80 + k % 64)
  if n < 0x80 then [UInt8.ofNat n]
  else if n < 0x800 then [UInt8.ofNat (0xC0 + n / 64), tail n]
  else if n < 0x10000 then [UInt8.ofNat (0xE0 + n / 4096), tail (n / 64), tail n]
  else [UInt8.ofNat (0xF0 + n / 262144), tail (n / 4096), tail (n / 64), tail n]

/-- The bytes of a unit that is not joined with another one; `alone` says what becomes of it if it
belongs to a pair. -/
def single (alone : Nat → Option Bytes) (n : Nat) : Option Bytes :=
  if isLeading n ∨ isTrailing n then alone n else some (utf8 n)

/-- The bytes of the pieces. Two units that form a pair are one character. -/
def join (alone : Nat → Option Bytes) : List Piece → Option Bytes
  | [] => some []
  | .byte b :: rest => (join alone rest).map (b :: ·)
  | [.unit n] => single alone n
  | .unit n :: .byte b :: rest =>
    (single alone n).bind fun s => (join alone rest).map fun t => s ++ b :: t
  | .unit n :: .unit m :: rest =>
    if isLeading n ∧ isTrailing m then (join alone rest).map (utf8 (joinPair n m) ++ ·)
    else (single alone n).bind fun s => (join alone (.unit m :: rest)).map (s ++ ·)

/-- Whether no control character stands in the literal. -/
def hasNoControl (raw : Bytes) : Bool := raw.all fun b => decide (0x20 ≤ b)

/-- The literal read as text. Control characters must be escaped and units must form pairs. -/
def text? (raw : Bytes) : Option String :=
  if hasNoControl raw then ((pieces? raw).bind (join fun _ => none)).bind Bytes.text? else none

/-- The literal read as bytes. A unit of a pair that stands alone is encoded by itself. -/
def rawBytes? (raw : Bytes) : Option Bytes := (pieces? raw).bind (join fun n => some (utf8 n))

/-- Whether the literal is well formed, when its value is not needed. -/
def isPlain (raw : Bytes) : Bool := hasNoControl raw && (pieces? raw).isSome

end Courier.Json
