import Courier.Settings.Basic

/-!
# Outcomes, faults and errors of delivery

What a server says about an envelope, why a delivery did not succeed or a job did not run, what a call
that broke off leaves behind, and which errors reach the owner of a transport.
-/

namespace Courier

/-- A server's answer: whether it took the envelope, and its response code. -/
structure Outcome where
  success : Bool
  code : Option Nat
  deriving DecidableEq, Repr

namespace Outcome

def accepted (code : Nat) : Outcome := ⟨true, some code⟩

def refused (code : Option Nat) : Outcome := ⟨false, code⟩

/-- The outcome that a status code stands for: success from 200 to 299. -/
def ofStatus (code : Nat) : Outcome := ⟨decide (200 ≤ code ∧ code < 300), some code⟩

end Outcome

/-- A response code in log lines and messages. -/
def describeCode : Option Nat → String
  | some code => "Some(" ++ toString code ++ ")"
  | none => "None"

/-- Why a delivery did not succeed. -/
inductive SendError where
  | disconnected
  | rejected (code : Option Nat)
  | exchange (reason : String)
  deriving DecidableEq, Repr

namespace SendError

def message : SendError → String
  | .disconnected => "transport gate reports disconnected"
  | .rejected code => "server rejected envelope (response code " ++ describeCode code ++ ")"
  | .exchange reason => "transport I/O failure: " ++ reason

/-- Whether another attempt may succeed. What a server refused stays refused. -/
def isRetryable : SendError → Bool
  | .rejected _ => false
  | .disconnected | .exchange _ => true

end SendError

/-- Why a job does not run. -/
inductive RejectReason where
  /-- Every slot was taken. -/
  | queueFull
  /-- The queue no longer takes jobs. -/
  | shutDown
  /-- The job was dropped while it waited. -/
  | cancelled
  deriving DecidableEq, Repr

/-- The reason in log lines. -/
def RejectReason.name : RejectReason → String
  | .queueFull => "QueueFull"
  | .shutDown => "ShutDown"
  | .cancelled => "Cancelled"

/-! ## Faults -/

/-- What a call of a collaborator that broke off left behind: a text, or something else. The fault
travels outwards from there until it is caught. -/
inductive Fault where
  | text (message : String)
  | other
  deriving DecidableEq, Repr

namespace Fault

/-- What the fault says, if it says anything. -/
def message? : Fault → Option String
  | .text message => some message
  | .other => none

/-- The fault in a log line. -/
def describe (f : Fault) : String := f.message?.getD "non-string panic payload"

end Fault

/-! ## Errors -/

/-- Why an envelope cache could not be opened. -/
inductive CacheError where
  | settings (error : SettingsError)
  | root (path : String) (fault : FileFault)
  deriving DecidableEq, Repr

def CacheError.message : CacheError → String
  | .settings error => error.message
  | .root path fault => "failed to create cache root: " ++ path ++ ": " ++ fault.message

/-- Errors that reach the owner of a transport. -/
inductive TransportError where
  | workerSpawn (reason : String)
  | settings (error : SettingsError)
  | cache (error : CacheError)
  | interrupted (activity : String)
  deriving DecidableEq, Repr

def TransportError.message : TransportError → String
  | .workerSpawn reason => "failed to spawn send worker: " ++ reason
  | .settings error => error.message
  | .cache error => "failed to open envelope cache: " ++ error.message
  | .interrupted activity => "interrupted while " ++ activity

end Courier
