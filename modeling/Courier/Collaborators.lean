import Courier.Cache.Basic
import Courier.Connection
import Courier.Gate
import Courier.Hint
import Courier.Journal
import Courier.RateLimit.Header

/-!
# Collaborators

Everything that a transport talks to besides its own queue. Every call is written to the journal
before it takes effect, so that a call that breaks off is there too.
-/

namespace Courier

/-- The state of all collaborators, and the journal. -/
structure Collaborators where
  cache : Cache
  files : FileSystem
  limits : RateLimits
  clock : Instant
  gate : Gate
  connection : Connection
  latches : Latches
  hints : List Hint
  keys : KeySource
  /-- How many submissions there were. -/
  submissions : Nat
  journal : Journal

namespace Collaborators

/-! ## The journal -/

/-- Write a line into the journal. -/
def record (w : Collaborators) (place : Place) (event : Event) : Collaborators :=
  { w with journal := w.journal ++ [⟨place, event⟩] }

/-- Log lines. -/
def logAll (w : Collaborators) (place : Place) (notices : List Notice) : Collaborators :=
  { w with journal := w.journal ++ notices.map fun n => ⟨place, .log n⟩ }

/-- Log a line. -/
def log (w : Collaborators) (place : Place) (notice : Notice) : Collaborators :=
  w.record place (.log notice)

/-! ## Hints -/

/-- What can be done with a hint that may be absent. -/
def capabilities (w : Collaborators) (hint : Option HintId) : Capabilities :=
  match hint.bind fun id => w.hints[id]? with
  | some h => h.capabilities
  | none => {}

/-- Give a hint its retry flag. -/
def setRetry (w : Collaborators) (place : Place) (id : HintId) (value : Bool) : Collaborators :=
  match w.hints[id]? with
  | none => w
  | some h =>
    let (h, notices) := h.setRetry value
    ({ w.record place (.setRetry id value) with hints := w.hints.set id h }).logAll place notices

/-- Give a hint its result. -/
def setResult (w : Collaborators) (place : Place) (id : HintId) (value : Bool) : Collaborators :=
  match w.hints[id]? with
  | none => w
  | some h =>
    let (h, notices) := h.setResult value
    ({ w.record place (.setResult id value) with hints := w.hints.set id h }).logAll place notices

/-- Tell a hint that the envelope is in the cache. -/
def markFlushed (w : Collaborators) (place : Place) (id : HintId) : Option Fault × Collaborators :=
  match w.hints[id]? with
  | none => (none, w)
  | some h =>
    let (h, fault) := h.markFlushed
    (fault, { w.record place (.markFlushed id) with hints := w.hints.set id h })

/-- Signal whether another attempt is worthwhile; without the capability this is only logged. -/
def signalRetry (w : Collaborators) (place : Place) (hint : Option HintId) (value : Bool) :
    Collaborators :=
  match hint with
  | some id =>
    if (w.capabilities hint).retry then w.setRetry place id value
    else w.log place (.hintNotRetryable value)
  | none => w.log place (.hintNotRetryable value)

/-- Report the outcome where the hint has the capability. -/
def signalResult (w : Collaborators) (place : Place) (hint : Option HintId) (value : Bool) :
    Collaborators :=
  match hint with
  | some id => if (w.capabilities hint).result then w.setResult place id value else w
  | none => w

/-- Report a failed submission: the result first, then the retry flag. -/
def signalFailure (w : Collaborators) (place : Place) (hint : Option HintId) (retry : Bool) :
    Collaborators :=
  (w.signalResult place hint false).signalRetry place hint retry

/-! ## The cache -/

/-- Store an envelope. -/
def store (w : Collaborators) (place : Place) (e : Envelope) (hinted : Bool) :
    Option Fault × Collaborators :=
  let effect := w.cache.store w.files e
  (effect.fault,
    ({ w.record place (.store e hinted) with files := effect.files }).logAll place effect.notices)

/-- Discard an envelope. -/
def discard (w : Collaborators) (place : Place) (e : Envelope) : Option Fault × Collaborators :=
  let effect := w.cache.discard w.files e
  (effect.fault,
    ({ w.record place (.discard e) with files := effect.files }).logAll place effect.notices)

/-! ## The gate and the connection -/

/-- Ask the gate. -/
def askGate (w : Collaborators) (place : Place) : Except Fault Bool × Collaborators :=
  let w' := w.record place (.askGate w.gate.isConnected)
  match w.gate.fault? with
  | some fault => (.error fault, w')
  | none => (.ok w.gate.isConnected, w')

/-- Set the switch of the gate. -/
def setGate (w : Collaborators) (connected : Bool) : Collaborators :=
  let (gate, notices) := w.gate.set connected
  ({ w with gate }).logAll ⟨.caller, none⟩ notices

/-- Hand an envelope to the connection. -/
def send (w : Collaborators) (place : Place) (e : Envelope) : Reply × Collaborators :=
  let (reply, connection) := w.connection.take
  (reply, { w.record place (.send e) with connection })

/-- Let another reply follow. -/
def pushReply (w : Collaborators) (reply : Reply) : Collaborators :=
  { w with connection := w.connection.push reply }

/-- Open a latch for good. -/
def openLatch (w : Collaborators) (latch : String) : Collaborators :=
  { w with latches := latch :: w.latches }

/-! ## Rate limits -/

/-- Let time pass on the clock of the limits. -/
def sleep (w : Collaborators) (nanos : Nat) : Collaborators := { w with clock := w.clock + nanos }

/-- The time that a change of the limits takes, in nanoseconds. A limit that is no longer than this
is over by the next call. -/
def moment : Nat := 1000

/-- Change the table of limits. -/
def changeLimits (w : Collaborators) (change : RateLimits.Change) : Collaborators :=
  let (limits, notices) := w.limits.change w.clock change
  (({ w with limits }).logAll ⟨.caller, none⟩ notices).sleep moment

/-- What is left of an envelope under the limits. If nothing is, the submission has failed for
good. -/
def filter (w : Collaborators) (place : Place) (e : Envelope) (hint : Option HintId) :
    Option Envelope × Collaborators :=
  let (left, notices) := w.limits.filter w.clock e
  let w := w.logAll place notices
  match left with
  | some e => (some e, w)
  | none => (none, w.signalFailure place hint false)

end Collaborators
end Courier
