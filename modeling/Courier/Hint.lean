import Courier.Notice

/-!
# Hints

A caller may attach a hint to a submission. A hint has some of four capabilities and keeps what it
was told. The stock hints keep the first value of each signal and log further ones;
`OnceFlag.set_set` is that law.
-/

namespace Courier

/-! ## Flags that are set once -/

/-- A flag that keeps the first value it is given. -/
abbrev OnceFlag := Option Bool

namespace OnceFlag

/-- Whether the value was taken, and the flag afterwards. -/
def set (flag : OnceFlag) (value : Bool) : Bool × OnceFlag :=
  match flag with
  | none => (true, some value)
  | some old => (false, some old)

/-- The second value is refused. -/
theorem set_set (flag : OnceFlag) (v w : Bool) :
    (flag.set v).2.set w = (false, (flag.set v).2) := by
  cases flag <;> rfl

/-- What a waiting caller sees when another one sets the flag meanwhile. -/
def race (flag : OnceFlag) (value : Bool) : OnceFlag := (flag.set value).2

end OnceFlag

/-! ## Hints -/

/-- What can be done with a hint. -/
structure Capabilities where
  cached : Bool := false
  retry : Bool := false
  result : Bool := false
  flush : Bool := false
  deriving DecidableEq, Repr

/-- A hint: its capabilities and what it was told. A stock hint `remembers` signals; another one
passes them on. `flushFault` is the fault by which its flush notification breaks off. -/
structure Hint where
  capabilities : Capabilities
  remembers : Bool := true
  flushed : OnceFlag := none
  retry : OnceFlag := none
  result : OnceFlag := none
  flushFault : Option Fault := none
  deriving DecidableEq, Repr

namespace Hint

/-- A hint without capabilities. -/
def bare : Hint := { capabilities := {} }

/-- The hint of an envelope that was read back from the cache. -/
def cached : Hint := { capabilities := { cached := true, retry := true, result := true } }

/-- The hint of a caller who waits for the disk or for the outcome. -/
def flush : Hint := { capabilities := { retry := true, result := true, flush := true } }

/-- A hint that passes its signals on. -/
def custom (capabilities : Capabilities) (flushFault : Option Fault) : Hint :=
  { capabilities, remembers := false, flushFault }

/-- Whether another attempt was asked for. -/
def isRetry (h : Hint) : Bool := h.retry.getD false

/-- Whether success was reported. -/
def isSuccess (h : Hint) : Bool := h.result.getD false

/-- The hint after a retry signal, and what is logged. -/
def setRetry (h : Hint) (value : Bool) : Hint × List Notice :=
  if h.remembers then
    let (taken, retry) := h.retry.set value
    ({ h with retry }, if taken then [] else [.retryAlreadySet value])
  else (h, [])

/-- The hint after a result, and what is logged. -/
def setResult (h : Hint) (value : Bool) : Hint × List Notice :=
  if h.remembers then
    let (taken, result) := h.result.set value
    ({ h with result }, if taken then [] else [.resultAlreadySet value])
  else (h, [])

/-- The hint after a flush notification, and the fault by which the notification broke off. -/
def markFlushed (h : Hint) : Hint × Option Fault :=
  if h.remembers then ({ h with flushed := (h.flushed.set true).2 }, h.flushFault)
  else (h, h.flushFault)

@[simp] theorem capabilities_setRetry (h : Hint) (v : Bool) :
    (h.setRetry v).1.capabilities = h.capabilities := by
  simp only [setRetry]; split <;> rfl

@[simp] theorem capabilities_setResult (h : Hint) (v : Bool) :
    (h.setResult v).1.capabilities = h.capabilities := by
  simp only [setResult]; split <;> rfl

@[simp] theorem capabilities_markFlushed (h : Hint) :
    h.markFlushed.1.capabilities = h.capabilities := by
  simp only [markFlushed]; split <;> rfl

end Hint
end Courier
