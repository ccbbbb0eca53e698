import Courier.Envelope.Basic
import Courier.Notice

/-!
# The journal

Everything that happens between a transport and its collaborators, in order: what was called, on
which side of the queue, for which submission, and what was logged.
-/

namespace Courier

/-- The side of a queue on which something happens. -/
inductive Side where
  | caller
  | worker
  deriving DecidableEq, Repr

/-- A hint, by its place among the hints. -/
abbrev HintId := Nat

/-- A submission, by its place among the submissions. -/
abbrev SubmissionId := Nat

/-- One thing that happened. -/
inductive Event where
  | log (notice : Notice)
  | store (envelope : Envelope) (hinted : Bool)
  | discard (envelope : Envelope)
  | askGate (connected : Bool)
  | send (envelope : Envelope)
  | setRetry (hint : HintId) (value : Bool)
  | setResult (hint : HintId) (value : Bool)
  | markFlushed (hint : HintId)
  deriving DecidableEq, Repr

/-- Where something happens: on which side, and for which submission if for one. -/
structure Place where
  side : Side
  submission : Option SubmissionId := none
  deriving DecidableEq, Repr

/-- One line of the journal. -/
structure Entry where
  place : Place
  event : Event
  deriving DecidableEq, Repr

/-- What happened so far, the first thing first. -/
abbrev Journal := List Entry

end Courier
