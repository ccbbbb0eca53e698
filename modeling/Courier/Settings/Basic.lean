import Courier.FileSystem.Basic
import Courier.Timestamp

/-!
# Settings

What can be set for a transport and for the envelope cache, and which values are refused.
`Settings.validate_eq_ok_iff` says which settings are accepted.
-/

namespace Courier

/-- Why settings cannot be used. -/
inductive SettingsError where
  | readFailed (path : String) (fault : FileFault)
  | parseFailed (path : String)
  | writeFailed (path : String) (fault : FileFault)
  | invalid (reason : String)
  deriving DecidableEq, Repr

/-- The wording of an error. -/
def SettingsError.message : SettingsError → String
  | .readFailed path fault => "failed to read " ++ path ++ ": " ++ fault.message
  | .parseFailed path => "failed to parse " ++ path
  | .writeFailed path fault => "failed to write " ++ path ++ ": " ++ fault.message
  | .invalid reason => "invalid config: " ++ reason

/-- Settings of a transport: the slots of its queue, the seconds that closing may take, and the
milliseconds that a flush waits unless told otherwise. -/
structure TransportSettings where
  maxQueueSize : Nat := 30
  closeGraceSecs : Nat := 60
  flushTimeoutMs : Nat := 15000
  deriving DecidableEq, Repr

/-- Settings of the envelope cache: its directory and how many envelopes it keeps. -/
structure CacheSettings where
  dir : String
  maxItems : Nat := 30
  deriving DecidableEq, Repr

/-- All settings. -/
structure Settings where
  transport : TransportSettings
  cache : CacheSettings
  deriving DecidableEq, Repr

namespace TransportSettings

/-- How long closing may take, in nanoseconds. -/
def closeGrace (s : TransportSettings) : Nat := s.closeGraceSecs * nanosPerSecond

/-- How long a flush waits unless told otherwise, in nanoseconds. -/
def flushTimeout (s : TransportSettings) : Nat := s.flushTimeoutMs * 1000000

def validate (s : TransportSettings) : Except SettingsError Unit :=
  if s.maxQueueSize = 0 then .error (.invalid "transport.max_queue_size must be positive")
  else .ok ()

end TransportSettings

namespace CacheSettings

def validate (s : CacheSettings) : Except SettingsError Unit :=
  if s.maxItems = 0 then .error (.invalid "cache.max_items must be positive") else .ok ()

end CacheSettings

namespace Settings

/-- The transport is looked at first. -/
def validate (s : Settings) : Except SettingsError Unit := do
  s.transport.validate
  s.cache.validate

theorem validate_eq_ok_iff {s : Settings} :
    s.validate = .ok () ↔ s.transport.maxQueueSize ≠ 0 ∧ s.cache.maxItems ≠ 0 := by
  by_cases hq : s.transport.maxQueueSize = 0 <;> by_cases hi : s.cache.maxItems = 0 <;>
    simp [validate, TransportSettings.validate, CacheSettings.validate, bind, Except.bind, hq, hi]

end Settings
end Courier
