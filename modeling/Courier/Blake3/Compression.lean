import Courier.Bytes

/-!
# The BLAKE3 compression function

The working state is four rows of four words, so that the quarter rounds of all columns, or of all
diagonals, are one sequence of row operations.
-/

namespace Courier.Blake3

/-- Four words that are processed side by side. -/
structure Row where
  (w0 w1 w2 w3 : UInt32)

namespace Row

def map (f : UInt32 → UInt32) (r : Row) : Row := ⟨f r.w0, f r.w1, f r.w2, f r.w3⟩

def zip (f : UInt32 → UInt32 → UInt32) (r s : Row) : Row :=
  ⟨f r.w0 s.w0, f r.w1 s.w1, f r.w2 s.w2, f r.w3 s.w3⟩

instance : Add Row := ⟨zip (· + ·)⟩
instance : XorOp Row := ⟨zip (· ^^^ ·)⟩

/-- Turn every word right by `n` bits. -/
def turn (n : UInt32) (r : Row) : Row := r.map fun w => (w >>> n) ||| (w <<< (32 - n))

/-- Shift the words one place to the left, around the row. -/
def shift (r : Row) : Row := ⟨r.w1, r.w2, r.w3, r.w0⟩

def words (r : Row) : List UInt32 := [r.w0, r.w1, r.w2, r.w3]

end Row

/-- The sixteen words of the working state. -/
structure State where
  (r0 r1 r2 r3 : Row)

/-- One half of the mixing function on all four columns, with the rotation distances `m` and `n`. -/
def State.mixHalf (s : State) (message : Row) (m n : UInt32) : State :=
  let r0 := s.r0 + s.r1 + message
  let r3 := (s.r3 ^^^ r0).turn m
  let r2 := s.r2 + r3
  let r1 := (s.r1 ^^^ r2).turn n
  ⟨r0, r1, r2, r3⟩

def State.mix (s : State) (first second : Row) : State :=
  (s.mixHalf first 16 12).mixHalf second 8 7

/-- Bring the diagonals into the columns. -/
def State.toDiagonals (s : State) : State :=
  ⟨s.r0, s.r1.shift, s.r2.shift.shift, s.r3.shift.shift.shift⟩

/-- Bring the columns back into the diagonals. -/
def State.ofDiagonals (s : State) : State :=
  ⟨s.r0, s.r1.shift.shift.shift, s.r2.shift.shift, s.r3.shift⟩

/-- The sixteen words of a block. -/
abbrev Message := Vector UInt32 16

/-- Mix the columns with the first half of the message, then the diagonals with the second. -/
def State.round (s : State) (m : Message) : State :=
  ((s.mix ⟨m[0], m[2], m[4], m[6]⟩ ⟨m[1], m[3], m[5], m[7]⟩).toDiagonals.mix
    ⟨m[8], m[10], m[12], m[14]⟩ ⟨m[9], m[11], m[13], m[15]⟩).ofDiagonals

/-- The order in which the next round takes the words of the message. -/
def Message.permute (m : Message) : Message :=
  #v[m[2], m[6], m[3], m[10], m[7], m[0], m[4], m[13],
    m[1], m[11], m[12], m[5], m[9], m[14], m[15], m[8]]

/-- `n` rounds, with the message permuted between them. -/
def State.rounds : (n : Nat) → State → Message → State
  | 0, s, _ => s
  | n + 1, s, m => (s.round m).rounds n m.permute

/-- A chaining value of eight words. -/
structure Chaining where
  (low high : Row)

def Chaining.words (c : Chaining) : List UInt32 := c.low.words ++ c.high.words

/-- The initial chaining value. -/
def Chaining.initial : Chaining where
  low := ⟨0x6A09E667, 0xBB67AE85, 0x3C6EF372, 0xA54FF53A⟩
  high := ⟨0x510E527F, 0x9B05688C, 0x1F83D9AB, 0x5BE0CD19⟩

/-- What one compression takes in. -/
structure Input where
  chaining : Chaining
  block : Message
  counter : UInt64
  length : UInt32
  flags : UInt32

/-- The first eight output words of the compression function. -/
def Input.compress (i : Input) : Chaining :=
  let s : State :=
    ⟨i.chaining.low, i.chaining.high, Chaining.initial.low,
      ⟨i.counter.toUInt32, (i.counter >>> 32).toUInt32, i.length, i.flags⟩⟩
  let t := s.rounds 7 i.block
  ⟨t.r0 ^^^ t.r2, t.r1 ^^^ t.r3⟩

end Courier.Blake3
