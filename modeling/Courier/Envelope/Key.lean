import Courier.Blake3.Hash

/-!
# Fresh keys

An envelope that comes without a key is given one. A key is the first half of a hash over the
process, the time it started and a running number, so that no two keys of a run are alike unless
the hash collides.
-/

namespace Courier

/-- Where fresh keys come from: the process, the time in nanoseconds since the epoch, and the number
of keys made so far. -/
structure KeySource where
  process : Nat
  time : Nat
  made : Nat
  deriving DecidableEq, Repr

namespace KeySource

/-- The key with a given running number. -/
def keyAt (s : KeySource) (number : Nat) : String :=
  let preimage := Bytes.littleEndian 4 s.process ++ Bytes.littleEndian 16 s.time ++
    Bytes.littleEndian 8 number
  Bytes.hex ((Blake3.hash preimage).take 16)

/-- The key that is made next. -/
def key (s : KeySource) : String := s.keyAt s.made

/-- The source after a key was made. -/
def next (s : KeySource) : KeySource := { s with made := s.made + 1 }

/-- The keys made so far. -/
def issued (s : KeySource) : List String := (List.range s.made).map s.keyAt

end KeySource
end Courier
