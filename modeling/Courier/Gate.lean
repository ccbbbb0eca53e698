import Courier.Notice

/-!
# The gate before sending

A cheap test of connectivity. A switch follows whoever watches the network; without a signal the
gate is always open. A faulty gate breaks off when it is asked.
-/

namespace Courier

/-- Where the answer to "are we connected?" comes from. -/
inductive Gate where
  | always
  | switch (connected : Bool)
  | faulty (fault : Fault)
  deriving DecidableEq, Repr

namespace Gate

/-- What the gate answers. -/
def isConnected : Gate → Bool
  | .switch connected => connected
  | .always | .faulty _ => true

/-- The fault by which asking breaks off. -/
def fault? : Gate → Option Fault
  | .faulty fault => some fault
  | .always | .switch _ => none

/-- The gate after its switch was set, and what is logged when it moved. -/
def set (connected : Bool) : Gate → Gate × List Notice
  | .switch was => (.switch connected, if was = connected then [] else [.gateChanged connected])
  | gate => (gate, [])

end Gate
end Courier
