import Courier.Outcome

/-!
# Connections

What becomes of an envelope that is handed to the server. A reply may be held back by a latch that
someone opens later. `Connection.take` gives the replies in their order and a last one for ever.
-/

namespace Courier

/-- What a connection does with one envelope. -/
inductive Reply where
  | answer (outcome : Outcome)
  | failure (reason : String)
  | fault (fault : Fault)
  /-- Waits for a latch to be opened first. -/
  | held (latch : String) (reply : Reply)
  deriving DecidableEq, Repr

/-- The latches that are open. An opened latch stays open. -/
abbrev Latches := List String

/-- What is left of a reply behind the latches that are open. -/
def Reply.behind (opened : Latches) : Reply → Reply
  | .held latch reply => if latch ∈ opened then reply.behind opened else .held latch reply
  | reply => reply

/-- Whether no closed latch holds a reply back. -/
def Reply.isFree (opened : Latches) : Reply → Bool
  | .held latch _ => decide (latch ∈ opened)
  | _ => true

/-- The replies that are still to come, and the one that is given when they are used up. -/
structure Connection where
  replies : List Reply
  fallback : Reply
  deriving DecidableEq, Repr

/-- The next reply, and the connection afterwards. -/
def Connection.take (c : Connection) : Reply × Connection :=
  match c.replies with
  | [] => (c.fallback, c)
  | reply :: more => (reply, { c with replies := more })

/-- Let another reply follow those that are still to come. -/
def Connection.push (c : Connection) (reply : Reply) : Connection :=
  { c with replies := c.replies ++ [reply] }

end Courier
