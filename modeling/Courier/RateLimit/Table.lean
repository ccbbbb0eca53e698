import Courier.Envelope.Digest
import Courier.Notice
import Courier.Seconds

/-!
# Rate limits

A limit on a category is a deadline. The table keeps the latest deadline of each category; a limit
on the default category counts for all of them. `RateLimits.deadline_raise` says what one limit does
to the table. Items of limited categories are taken out of an envelope, and an envelope of which
nothing is left is dropped (`RateLimits.filter`).
-/

namespace Courier

/-- A reading of a clock that never goes back, in nanoseconds. -/
abbrev Instant := Nat

/-- The deadline of each category that was ever limited and not purged since. -/
structure RateLimits where
  deadline : Category → Option Instant

namespace RateLimits

def empty : RateLimits := ⟨fun _ => none⟩

/-- The later of a deadline and one that may be absent. -/
def later (old : Option Instant) (deadline : Instant) : Instant :=
  match old with
  | none => deadline
  | some old => if old < deadline then deadline else old

/-- Limit one category up to a deadline, unless it is limited for longer. -/
def raise (limits : RateLimits) (category : Category) (deadline : Instant) : RateLimits :=
  ⟨fun c => if c = category then some (later (limits.deadline c) deadline) else limits.deadline c⟩

theorem deadline_raise (limits : RateLimits) (category c : Category) (deadline : Instant) :
    (limits.raise category deadline).deadline c =
      if c = category then some (later (limits.deadline c) deadline) else limits.deadline c := rfl

/-- Limit several categories up to a deadline. -/
def raiseAll (limits : RateLimits) (categories : List Category) (deadline : Instant) : RateLimits :=
  categories.foldl (fun limits c => limits.raise c deadline) limits

/-- The categories that a list stands for: none listed means all, by way of the default one. -/
def targets (categories : List Category) : List Category :=
  if categories = [] then [.default] else categories

/-- The length of a limit, which is never longer than a day. -/
def capped (nanos : Nat) : Nat := min nanos Seconds.dayNanos

/-- Limit categories for a time that begins now. -/
def limit (limits : RateLimits) (now : Instant) (categories : List Category) (nanos : Nat) :
    RateLimits × List Notice :=
  (limits.raiseAll (targets categories) (now + capped nanos),
    (targets categories).map fun c => .limitApplied c (capped nanos))

/-- The length of a limit when the server gives none that can be read. -/
def standardNanos : Nat := 60 * nanosPerSecond

/-- Limit everything for the number of seconds that the server gives. -/
def retryAfter (limits : RateLimits) (now : Instant) (value : Option String) :
    RateLimits × List Notice :=
  limits.limit now [] ((value.bind fun s => Seconds.nanos? s.toList).getD standardNanos)

/-- Whether a category's own deadline is still ahead. -/
def isActive (limits : RateLimits) (now : Instant) (category : Category) : Bool :=
  (limits.deadline category).any fun deadline => decide (now < deadline)

/-- Whether items of a category are held back. -/
def isLimited (limits : RateLimits) (now : Instant) (category : Category) : Bool :=
  limits.isActive now category || limits.isActive now .default

/-- The table without the deadlines that have passed. -/
def purge (limits : RateLimits) (now : Instant) : RateLimits :=
  ⟨fun c => (limits.deadline c).filter fun deadline => decide (now < deadline)⟩

/-- The categories that have a deadline, passed or not. -/
def stored (limits : RateLimits) : List Category :=
  Category.all.filter fun c => (limits.deadline c).isSome

/-! ## Filtering envelopes -/

/-- The items of an envelope that are held back. -/
def heldBack (limits : RateLimits) (now : Instant) (e : Envelope) : List Item :=
  e.items.filter fun i => limits.isLimited now i.category

/-- The envelope without the items that are held back. -/
def passed (limits : RateLimits) (now : Instant) (e : Envelope) : Envelope :=
  e.retain fun i => ! limits.isLimited now i.category

/-- What is left of an envelope, if anything has to be sent, and what is logged. -/
def filter (limits : RateLimits) (now : Instant) (e : Envelope) : Option Envelope × List Notice :=
  let dropped := limits.heldBack now e
  if dropped = [] then (some e, [])
  else
    let notices := dropped.map fun i => .itemDropped e.label i.category
    let left := limits.passed now e
    if left.isEmpty then (none, notices ++ [.envelopeThrottled e.label]) else (some left, notices)

/-- An envelope of which no item is limited passes unchanged. -/
theorem filter_of_heldBack_eq_nil {limits : RateLimits} {now : Instant} {e : Envelope}
    (h : limits.heldBack now e = []) : limits.filter now e = (some e, []) := by
  simp [filter, h]

end RateLimits
end Courier
