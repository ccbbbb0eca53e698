/-!
# Byte strings

Byte strings are lists of bytes. This file holds their UTF-8 reading, little-endian words and
hexadecimal text. `Bytes.text?_ofText` says that a text is recovered from its UTF-8 form.
-/

namespace Courier

/-- A byte string. -/
abbrev Bytes := List UInt8

namespace Bytes

/-- The UTF-8 form of a text. -/
def ofText (s : String) : Bytes := s.toUTF8.data.toList

/-- The text whose UTF-8 form these bytes are, if there is one. -/
def text? (b : Bytes) : Option String := String.fromUTF8? ⟨b.toArray⟩

@[simp] theorem text?_ofText (s : String) : text? (ofText s) = some s := by
  simp only [text?, ofText, Array.toArray_toList, String.fromUTF8?]
  exact dif_pos s.isValidUTF8

theorem ofText_injective {s t : String} (h : ofText s = ofText t) : s = t :=
  Option.some.inj (by rw [← text?_ofText s, h, text?_ofText])

/-- The `count` low-order bytes of a number, lowest first. -/
def littleEndian : (count : Nat) → Nat → Bytes
  | 0, _ => []
  | count + 1, n => UInt8.ofNat (n % 256) :: littleEndian count (n / 256)

@[simp] theorem length_littleEndian (count n : Nat) : (littleEndian count n).length = count := by
  induction count generalizing n with
  | zero => rfl
  | succ count ih => simp [littleEndian, ih]

/-- The number whose low-order bytes these are. -/
def toNat : Bytes → Nat
  | [] => 0
  | b :: rest => b.toNat + 256 * toNat rest

/-- Two lowercase hexadecimal digits for each byte. -/
def hexDigits : Bytes → List Char
  | [] => []
  | b :: rest => Nat.digitChar (b.toNat / 16) :: Nat.digitChar (b.toNat % 16) :: hexDigits rest

/-- The hexadecimal text of a byte string. -/
def hex (b : Bytes) : String := String.ofList (hexDigits b)

/-- Pieces of `size` bytes, the last one possibly shorter; the empty byte string is one empty
piece. `fuel` bounds their number. -/
def piecesUpTo (size : Nat) : (fuel : Nat) → Bytes → List Bytes
  | 0, _ => []
  | fuel + 1, b =>
    match b.drop size with
    | [] => [b]
    | rest => b.take size :: piecesUpTo size fuel rest

/-- The byte string cut into pieces of `size` bytes, the last one possibly shorter. -/
def pieces (size : Nat) (b : Bytes) : List Bytes := piecesUpTo size (b.length + 1) b

end Bytes
end Courier
