import Courier.Json.Literal

/-!
# JSON documents

A document is a tree whose strings and numbers are kept as they are written. `Json.print` writes it
without blanks.
-/

namespace Courier

/-- A JSON value. A string is what stands between its quotes, a number its literal. -/
inductive Json where
  | null
  | bool (value : Bool)
  | number (literal : Bytes)
  | string (raw : Bytes)
  | array (elements : List Json)
  | object (members : List (Bytes × Json))

namespace Json

/-- The number literal of a natural number. -/
def natLiteral (n : Nat) : Bytes := (Nat.toDigits 10 n).map Char.toUInt8

/-- A natural number. -/
def ofNat (n : Nat) : Json := .number (natLiteral n)

/-- A text. -/
def ofText (s : String) : Json := .string (escape (Bytes.ofText s))

/-- A quoted literal. -/
def quoted (raw : Bytes) : Bytes := ascii '"' :: raw ++ [ascii '"']

mutual

/-- The text of a document, without blanks. -/
def print : Json → Bytes
  | .null => Bytes.ofText "null"
  | .bool true => Bytes.ofText "true"
  | .bool false => Bytes.ofText "false"
  | .number literal => literal
  | .string raw => quoted raw
  | .array elements => ascii '[' :: (printElements elements ++ [ascii ']'])
  | .object members => ascii '\x7b' :: (printMembers members ++ [ascii '\x7d'])

/-- The elements of an array, with commas between them. -/
def printElements : List Json → Bytes
  | [] => []
  | [element] => print element
  | element :: more => print element ++ ascii ',' :: printElements more

/-- The members of an object, with commas between them. -/
def printMembers : List (Bytes × Json) → Bytes
  | [] => []
  | [member] => printMember member
  | member :: more => printMember member ++ ascii ',' :: printMembers more

/-- A member of an object: its name and its value. -/
def printMember : Bytes × Json → Bytes
  | (name, value) => quoted name ++ ascii ':' :: print value

end

mutual

/-- Whether every string in the document is well formed. -/
def isPlainTree : Json → Bool
  | .null | .bool _ | .number _ => true
  | .string raw => isPlain raw
  | .array elements => arePlainElements elements
  | .object members => arePlainMembers members

def arePlainElements : List Json → Bool
  | [] => true
  | element :: more => isPlainTree element && arePlainElements more

def arePlainMembers : List (Bytes × Json) → Bool
  | [] => true
  | member :: more => isPlainMember member && arePlainMembers more

def isPlainMember : Bytes × Json → Bool
  | (name, value) => isPlain name && isPlainTree value

end

/-- The natural number below `bound` that a value is. Only a plain literal is one: neither a sign
nor a point nor a power may stand in it. -/
def nat? (bound : Nat) : Json → Option Nat
  | .number literal =>
    if literal.all fun b => decide (48 ≤ b ∧ b ≤ 57) then
      let n := literal.foldl (fun n b => 10 * n + (b.toNat - 48)) 0
      if n < bound then some n else none
    else none
  | _ => none

/-- The text that a value is. -/
def asText? : Json → Option String
  | .string raw => text? raw
  | _ => none

end Json
end Courier
