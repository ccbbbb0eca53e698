import Courier.FileSystem.Operations
import Courier.Settings.File

/-!
# Loading settings

Environment variables win over the file, and the file wins over the defaults. An override that is
not a number in range is passed over. `Settings.load` refuses what `Settings.validate` refuses.
-/

namespace Courier.Settings

/-- A number, unless the environment gives another one. -/
def overrideWord (env : Environment) (name : String) (value : Nat) : Nat :=
  ((env name).bind fun s => Text.word? s.toList).getD value

/-- The settings with the values that the environment gives in place of theirs. -/
def override (env : Environment) (s : Settings) : Settings where
  transport := {
    maxQueueSize := overrideWord env "SLUICE_TRANSPORT__MAX_QUEUE_SIZE" s.transport.maxQueueSize
    closeGraceSecs :=
      overrideWord env "SLUICE_TRANSPORT__CLOSE_GRACE_SECS" s.transport.closeGraceSecs
    flushTimeoutMs :=
      overrideWord env "SLUICE_TRANSPORT__FLUSH_TIMEOUT_MS" s.transport.flushTimeoutMs }
  cache := {
    dir := (env "SLUICE_CACHE__DIR").getD s.cache.dir
    maxItems := overrideWord env "SLUICE_CACHE__MAX_ITEMS" s.cache.maxItems }

/-- What the file of the settings gives. Without a file these are the defaults. -/
def ofFile (env : Environment) (fs : FileSystem) : Except SettingsError Settings :=
  let path := env.settingsFile
  if fs.contains path then
    match fs.readText path with
    | .error fault => .error (.readFailed path fault)
    | .ok text =>
      match (Settings.default env).ofText? text with
      | some s => .ok s
      | none => .error (.parseFailed path)
  else .ok (Settings.default env)

/-- The settings in force. -/
def load (env : Environment) (fs : FileSystem) : Except SettingsError Settings := do
  let s ← ofFile env fs
  let s := s.override env
  s.validate
  pure s

/-- Every loaded setting is accepted. -/
theorem validate_of_load {env : Environment} {fs : FileSystem} {s : Settings}
    (h : load env fs = .ok s) : s.validate = .ok () := by
  simp only [load, bind, Except.bind, pure, Except.pure] at h
  split at h
  · cases h
  · split at h
    · cases h
    · cases h; assumption

/-- Make the directory that holds a path, if one does. -/
def makeParent (fs : FileSystem) (path : String) : FileSystem × Except FileFault Unit :=
  match Path.parent? path with
  | some parent => fs.makeDirectories parent
  | none => (fs, .ok ())

/-- Write the defaults to the file of the settings, unless it is there, and say where it is. The
directories on the way to it are made first, and stay when the file cannot be written. -/
def writeDefaultIfMissing (env : Environment) (fs : FileSystem) :
    FileSystem × Except SettingsError String :=
  let path := env.settingsFile
  if fs.contains path then (fs, .ok path)
  else
    match makeParent fs path with
    | (fs, .error fault) => (fs, .error (.writeFailed path fault))
    | (fs, .ok ()) =>
      match fs.write path (Bytes.ofText (Settings.default env).render) with
      | .error fault => (fs, .error (.writeFailed path fault))
      | .ok fs => (fs, .ok path)

end Courier.Settings
