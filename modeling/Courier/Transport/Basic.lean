import Courier.Settings.Basic
import Courier.Task

/-!
# Transports

A transport takes envelopes and sends them in the background. Sending never fails towards the
caller: an envelope is filtered, then handed to the queue, and what becomes of it is told to its
hint. Closing drains the queue, or cancels what still waits when that takes too long.
-/

namespace Courier

/-- A transport. The limits hold for it if it is `limited`. -/
structure Transport where
  settings : TransportSettings
  limited : Bool
  queue : Queue Task Reply
  closed : Bool

namespace Transport

/-! ## The queue -/

/-- Dispose of a task that will not run: keep the envelope for a later attempt, and tell the hint to
try again. -/
def reject (side : Side) (t : Task) (reason : RejectReason) (w : Collaborators) :
    Option Fault × Collaborators :=
  let p := t.place side
  let (fault, w) :=
    if (w.capabilities t.hint).cached then (none, w) else w.store p t.envelope t.hint.isSome
  match fault with
  | some fault => (some fault, w)
  | none => (none, (w.signalFailure p t.hint true).log p (.envelopeRejected t.label reason))

/-- How tasks are handled. -/
def handler : Handler Task Reply Collaborators where
  start t w := t.start .worker w
  canResume _ reply w := reply.isFree w.latches
  resume t reply w := t.resume .worker reply w
  reject := reject
  log side task notice w := w.log ⟨side, task.bind Task.submission⟩ notice

/-- Where the calls of the transport itself are made. -/
def here : Place := ⟨.caller, none⟩

/-! ## Starting -/

/-- Start a transport over collaborators. -/
def start (settings : TransportSettings) (limited : Bool) (w : Collaborators) :
    Except TransportError Transport × Collaborators :=
  match settings.validate with
  | .error e => (.error (.settings e), w)
  | .ok () =>
    (.ok ⟨settings, limited, Queue.create settings.maxQueueSize, false⟩,
      w.log here (.transportStarted settings.maxQueueSize settings.closeGraceSecs))

/-- Start a transport over a cache on disk. -/
def ofSettings (settings : Settings) (limited : Bool) (w : Collaborators) :
    Except TransportError Transport × Collaborators :=
  match settings.validate with
  | .error e => (.error (.settings e), w)
  | .ok () =>
    match DiskCache.ofSettings w.files settings.cache with
    | (files, .error e) => (.error (.cache e), { w with files })
    | (files, .ok cache) => start settings.transport limited { w with cache := .disk cache, files }

/-! ## Watching -/

/-- Let the worker proceed until it has to wait or is at its end. -/
def settle (t : Transport) (w : Collaborators) : Transport × Collaborators :=
  let (queue, w) := t.queue.settle handler w
  ({ t with queue }, w)

/-- Envelopes that wait or are being sent. -/
def pending (t : Transport) : Nat := t.queue.occupied

/-! ## Sending -/

/-- What became of a submission when the call returned. -/
inductive SendResult where
  | handedOver
  | dropped
  | rejected
  | broken (fault : Fault)
  deriving DecidableEq, Repr

/-- What is left of an envelope under the limits that hold for the transport. -/
def filter (t : Transport) (p : Place) (e : Envelope) (hint : Option HintId) (w : Collaborators) :
    Option Envelope × Collaborators :=
  if t.limited then w.filter p e hint else (some e, w)

/-- Submit an envelope. One that was read back from the cache is neither stored nor discarded by its
task; if the limits drop it, its copy in the cache is discarded. -/
def send (t : Transport) (e : Envelope) (hint : Option HintId) (w : Collaborators) :
    SendResult × Transport × Collaborators :=
  let p : Place := ⟨.caller, some w.submissions⟩
  let w := { w with submissions := w.submissions + 1 }
  let cached := (w.capabilities hint).cached
  let w := if cached then w.log p (.storeSkipped e.label) else w
  match t.filter p e hint w with
  | (none, w) =>
    if cached then
      match w.discard p e with
      | (some fault, w) => (.broken fault, t, w)
      | (none, w) => (.dropped, t, w)
    else (.dropped, t, w)
  | (some left, w) =>
    match t.queue.submit handler ⟨left, hint, ! cached, p.submission⟩ w with
    | (.accepted, queue, w) => (.handedOver, { t with queue }, w)
    | (.rejected, queue, w) => (.rejected, { t with queue }, w)
    | (.broken fault, queue, w) => (.broken fault, { t with queue }, w)

/-! ## Flushing and closing -/

/-- The end of a wait for the queue to become idle, and whether it did. If it did not, the time is
up. -/
def endFlush (t : Transport) (timeoutMs : Nat) (w : Collaborators) : Bool × Collaborators :=
  if t.queue.isIdle then (true, w)
  else (false, (w.sleep (timeoutMs * nanosPerMilli)).log here (.flushTimedOut t.pending))

/-- Wait for the queue to become idle, and say whether it did. -/
def flush (t : Transport) (timeoutMs : Nat) (w : Collaborators) : Bool × Transport × Collaborators :=
  let w := w.log here (.flushing timeoutMs t.pending)
  let (t, w) := t.settle w
  let (idle, w) := t.endFlush timeoutMs w
  (idle, t, w)

/-- Flush with the timeout of the settings. -/
def flushDefault (t : Transport) (w : Collaborators) : Bool × Transport × Collaborators :=
  t.flush t.settings.flushTimeoutMs w

/-- Begin to close the transport: from now on nothing is accepted. -/
def beginClose (t : Transport) (w : Collaborators) : Transport × Collaborators :=
  let w := w.log here (.transportClosing t.pending)
  let (queue, w) := t.queue.shutDown handler w
  ({ t with queue, closed := true }, w)

/-- The end of the wait for the worker. If it is not at its end by now, what still waits is
cancelled. -/
def endClose (t : Transport) (w : Collaborators) : Transport × Collaborators :=
  if t.queue.isTerminated then (t, w.log here .transportClosed)
  else
    let w := w.sleep t.settings.closeGrace
    let w := w.log here (.closeTimedOut t.settings.closeGraceSecs t.pending)
    let (queue, w) := t.queue.shutDownNow handler w
    ({ t with queue }, w)

/-- Close the transport. Only the first call does anything. -/
def close (t : Transport) (w : Collaborators) : Transport × Collaborators :=
  if t.closed then (t, w)
  else
    let (t, w) := t.beginClose w
    let (t, w) := t.settle w
    t.endClose w

end Transport

/-! ## Disabled delivery

The transport that is used when nothing is to be delivered. It drops every envelope, is always idle,
and has nothing to close. -/

namespace Disabled

/-- What is logged for an envelope that is dropped. -/
def send (e : Envelope) : Notice := .deliveryDisabled e.label

/-- There is never anything to wait for. -/
def flush (_timeoutMs : Nat) : Bool := true

end Disabled
end Courier
