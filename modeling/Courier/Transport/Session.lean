import Courier.Transport.Basic

/-!
# Sessions

A session is a sequence of actions on a transport and its collaborators. After each of them the
worker proceeds until it has to wait or is at its end.
-/

namespace Courier.Transport

/-- What is done with a transport, or with its collaborators behind its back. -/
inductive Action where
  | send (envelope : Envelope) (hint : Option HintId)
  | flush (timeoutMs : Nat)
  | flushDefault
  | close
  | setGate (connected : Bool)
  | pushReply (reply : Reply)
  | openLatch (latch : String)
  | changeLimits (change : RateLimits.Change)
  | sleep (nanos : Nat)
  deriving DecidableEq, Repr

/-- What an action answers. -/
inductive Answer where
  | sent (result : SendResult)
  | flushed (idle : Bool)
  | closed
  | done
  deriving DecidableEq, Repr

/-- Take an action. -/
def act (a : Action) (t : Transport) (w : Collaborators) : Answer × Transport × Collaborators :=
  match a with
  | .send e hint =>
    let (result, t, w) := t.send e hint w
    (.sent result, t, w)
  | .flush timeoutMs =>
    let (idle, t, w) := t.flush timeoutMs w
    (.flushed idle, t, w)
  | .flushDefault =>
    let (idle, t, w) := t.flushDefault w
    (.flushed idle, t, w)
  | .close => (.closed, t.close w)
  | .setGate connected => (.done, t, w.setGate connected)
  | .pushReply reply => (.done, t, w.pushReply reply)
  | .openLatch latch => (.done, t, w.openLatch latch)
  | .changeLimits change => (.done, t, w.changeLimits change)
  | .sleep nanos => (.done, t, w.sleep nanos)

/-- Take an action, and let the worker proceed. -/
def turn (a : Action) (t : Transport) (w : Collaborators) : Answer × Transport × Collaborators :=
  let (answer, t, w) := t.act a w
  let (t, w) := t.settle w
  (answer, t, w)

/-- Take actions one after the other. -/
def play : List Action → Transport → Collaborators → List Answer × Transport × Collaborators
  | [], t, w => ([], t, w)
  | a :: more, t, w =>
    let (first, t, w) := t.turn a w
    let (rest, t, w) := play more t w
    (first :: rest, t, w)

end Courier.Transport
