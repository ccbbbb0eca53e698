import Courier.Collaborators
import Courier.Queue.Basic

/-!
# Send tasks

One accepted submission from start to end: the envelope is stored, the hint is told so, the gate is
asked, the envelope is sent, and discarded once it is delivered. The outcome is reported last, also
when a call breaks off.
-/

namespace Courier

/-- A submission to be sent. An envelope that is already in the cache is not `kept` there by the
task, neither stored nor discarded. -/
structure Task where
  envelope : Envelope
  hint : Option HintId
  kept : Bool
  submission : Option SubmissionId
  deriving DecidableEq, Repr

namespace Task

/-- Where the calls of a task happen. -/
def place (t : Task) (side : Side) : Place := ⟨side, t.submission⟩

def label (t : Task) : String := t.envelope.label

/-! ## The ends of a task -/

/-- Report the outcome. -/
def report (t : Task) (p : Place) (success : Bool) (w : Collaborators) : Collaborators :=
  if (w.capabilities t.hint).result then
    (w.log p (.resultReported t.label success)).signalResult p t.hint success
  else w

/-- A call broke off. -/
def breakOff (t : Task) (p : Place) (fault : Fault) (w : Collaborators) :
    Progress Reply × Collaborators :=
  (.done (some fault), t.report p false (w.log p (.submissionFaulted t.label)))

/-- The envelope was delivered. -/
def succeed (t : Task) (p : Place) (code : Option Nat) (w : Collaborators) :
    Progress Reply × Collaborators :=
  (.done none, t.report p true (w.log p (.envelopeDelivered t.label code)))

/-- What is logged about an error. -/
def errorNotice (t : Task) : SendError → Notice
  | .disconnected => .gateClosed t.label
  | .rejected code => .envelopeRefused t.label code
  | .exchange reason => .exchangeFailed t.label (SendError.message (.exchange reason))

/-- The envelope was not delivered. -/
def fail (t : Task) (p : Place) (error : SendError) (w : Collaborators) :
    Progress Reply × Collaborators :=
  let w := w.log p (t.errorNotice error)
  let w := if error.isRetryable then w.signalRetry p t.hint true else w
  (.done none, t.report p false w)

/-! ## The way there -/

/-- Take the reply. -/
def receive (t : Task) (p : Place) : Reply → Collaborators → Progress Reply × Collaborators
  | .answer outcome, w =>
    if outcome.success then
      if t.kept then
        match w.discard p t.envelope with
        | (some fault, w) => t.breakOff p fault w
        | (none, w) => t.succeed p outcome.code w
      else t.succeed p outcome.code w
    else t.fail p (.rejected outcome.code) w
  | .failure reason, w => t.fail p (.exchange reason) w
  | .fault fault, w => t.breakOff p fault w
  | .held latch reply, w => (.waiting (.held latch reply), w)

/-- Send the envelope and take the reply, as far as it is not held back. -/
def send (t : Task) (p : Place) (w : Collaborators) : Progress Reply × Collaborators :=
  let (reply, w) := w.send p t.envelope
  t.receive p (reply.behind w.latches) w

/-- Ask the gate, and send the envelope if it is open. -/
def askGate (t : Task) (p : Place) (w : Collaborators) : Progress Reply × Collaborators :=
  match w.askGate p with
  | (.error fault, w) => t.breakOff p fault w
  | (.ok true, w) => t.send p w
  | (.ok false, w) => t.fail p .disconnected w

/-- Tell the hint that the envelope is in the cache, and go on. -/
def notify (t : Task) (p : Place) (w : Collaborators) : Progress Reply × Collaborators :=
  match t.hint with
  | some id =>
    if (w.capabilities t.hint).flush then
      match w.markFlushed p id with
      | (some fault, w) => t.breakOff p fault w
      | (none, w) => t.askGate p (w.log p (.flushNotified t.label))
    else t.askGate p w
  | none => t.askGate p w

/-- Run a task up to its end, or up to where its reply is held back. What is left is that reply. -/
def start (t : Task) (side : Side) (w : Collaborators) : Progress Reply × Collaborators :=
  let p := t.place side
  if t.kept then
    match w.store p t.envelope t.hint.isSome with
    | (some fault, w) => t.breakOff p fault w
    | (none, w) => t.notify p w
  else t.notify p w

/-- Go on with a task whose reply was held back. -/
def resume (t : Task) (side : Side) (reply : Reply) (w : Collaborators) :
    Progress Reply × Collaborators :=
  t.receive (t.place side) (reply.behind w.latches) w

end Task
end Courier
