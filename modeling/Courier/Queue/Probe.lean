import Courier.Connection
import Courier.Queue.Basic

/-!
# Probes

Jobs that only leave a trace: where they start and end, and why they were rejected. A probe may wait
for a latch and may break off, and so may the policy for rejected probes.
-/

namespace Courier

/-- A job that leaves a trace. -/
structure Probe where
  id : String
  latch : Option String := none
  fault : Option Fault := none
  deriving DecidableEq, Repr

/-- What probes leave behind. -/
inductive ProbeEvent where
  | started (id : String)
  | ended (id : String)
  | rejected (id : String) (reason : RejectReason)
  | log (notice : Notice)
  deriving DecidableEq, Repr

/-- The surroundings of probes: the latches that are open, the faults by which the policy breaks off,
and the trace. -/
structure ProbeBoard where
  latches : Latches
  policyFault : Probe → RejectReason → Option Fault
  trace : List (Side × ProbeEvent)

namespace ProbeBoard

def record (b : ProbeBoard) (side : Side) (event : ProbeEvent) : ProbeBoard :=
  { b with trace := b.trace ++ [(side, event)] }

/-- Open a latch for good. -/
def openLatch (b : ProbeBoard) (latch : String) : ProbeBoard :=
  { b with latches := latch :: b.latches }

/-- Whether a probe may go on behind its latch. -/
def isOpen (b : ProbeBoard) (p : Probe) : Bool := p.latch.all fun latch => decide (latch ∈ b.latches)

/-- Bring a probe to its end. -/
def finish (p : Probe) (b : ProbeBoard) : Progress Unit × ProbeBoard :=
  match p.fault with
  | some fault => (.done (some fault), b)
  | none => (.done none, b.record .worker (.ended p.id))

/-- Start a probe, and end it if its latch is open. -/
def start (p : Probe) (b : ProbeBoard) : Progress Unit × ProbeBoard :=
  let b := b.record .worker (.started p.id)
  if b.isOpen p then finish p b else (.waiting (), b)

/-- How probes are handled. -/
def handler : Handler Probe Unit ProbeBoard where
  start := start
  canResume p _ b := b.isOpen p
  resume p _ b := finish p b
  reject side p reason b := (b.policyFault p reason, b.record side (.rejected p.id reason))
  log side _ notice b := b.record side (.log notice)

/-! ## Sessions -/

/-- What is done with a queue of probes and its surroundings. -/
inductive Action where
  | call (call : Queue.Call Probe)
  | openLatch (latch : String)
  deriving DecidableEq, Repr

/-- Take an action, and let the worker proceed until it has to wait or is at its end. -/
def turn (a : Action) (q : Queue Probe Unit) (b : ProbeBoard) :
    Queue.Answer × Queue Probe Unit × ProbeBoard :=
  let (answer, q, b) := match a with
    | .call c => q.call handler c b
    | .openLatch latch => (.done, q, b.openLatch latch)
  let (q, b) := q.settle handler b
  (answer, q, b)

/-- Take actions one after the other. -/
def play : List Action → Queue Probe Unit → ProbeBoard →
    List Queue.Answer × Queue Probe Unit × ProbeBoard
  | [], q, b => ([], q, b)
  | a :: more, q, b =>
    let (first, q, b) := turn a q b
    let (rest, q, b) := play more q b
    (first :: rest, q, b)

end ProbeBoard
end Courier
