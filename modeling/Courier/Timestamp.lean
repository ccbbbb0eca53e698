/-!
# Points in time

A time is a number of nanoseconds relative to 1970-01-01 00:00:00 UTC, of which the whole seconds
fit into 64 bits with sign.
-/

namespace Courier

/-- Nanoseconds in a second. -/
abbrev nanosPerSecond : Nat := 1000000000

/-- Nanoseconds in a millisecond. -/
abbrev nanosPerMilli : Nat := 1000000

/-- One more than the largest number of whole seconds, `2 ^ 63`. -/
abbrev secondsBound : Nat := 9223372036854775808

/-- A point in time, as its distance from the epoch in nanoseconds. -/
structure Timestamp where
  nanos : Int
  lower : -(secondsBound * nanosPerSecond) ≤ nanos
  upper : nanos < secondsBound * nanosPerSecond
  deriving DecidableEq, Repr

namespace Timestamp

/-- The time at this distance from the epoch, if it can be represented. -/
def ofNanos? (n : Int) : Option Timestamp :=
  if h : -(secondsBound * nanosPerSecond) ≤ n ∧ n < secondsBound * nanosPerSecond then some ⟨n, h.1, h.2⟩
  else none

@[simp] theorem ofNanos?_nanos (t : Timestamp) : ofNanos? t.nanos = some t :=
  dif_pos ⟨t.lower, t.upper⟩

/-- Whether the time is before the epoch. -/
def isBeforeEpoch (t : Timestamp) : Bool := t.nanos < 0

/-- Whole seconds of the distance from the epoch. -/
def seconds (t : Timestamp) : Nat := t.nanos.natAbs / nanosPerSecond

/-- Nanoseconds of the distance from the epoch beyond its whole seconds. -/
def subsecond (t : Timestamp) : Nat := t.nanos.natAbs % nanosPerSecond

theorem subsecond_lt (t : Timestamp) : t.subsecond < nanosPerSecond :=
  Nat.mod_lt _ (by decide)

end Timestamp
end Courier
