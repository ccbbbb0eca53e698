import Courier.Settings.Location
import Courier.Toml.Document
import Courier.Toml.Quoted

/-!
# The file of the settings

The settings are a TOML document with a table for the transport and one for the cache. What the
document does not give keeps its value. `Settings.render` writes such a document.
-/

namespace Courier

namespace Toml

/-- The fields of a record: the members of a table, or the elements of an array in the order of the
fields. A date or time is a record without any of the fields. -/
def record? (names : List String) : Toml → Option Members
  | .table _ members => some members
  | .array elements => some (names.zip elements)
  | .tables elements => some (names.zip (elements.map (.table .header)))
  | .dateTime => some []
  | _ => none

/-- A field of a record, or the value it has when it is not given. -/
def field? {α : Type} (read? : Toml → Option α) (members : Members) (name : String) (otherwise : α) :
    Option α :=
  match members.lookup name with
  | none => some otherwise
  | some value => read? value

/-- A natural number. -/
def nat? : Toml → Option Nat
  | .integer n => if 0 ≤ n then some n.toNat else none
  | _ => none

/-- A text. -/
def string? : Toml → Option String
  | .text s => some s
  | _ => none

end Toml

/-- The settings of a transport that a value gives, with `base` for what it does not give. -/
def TransportSettings.ofToml? (base : TransportSettings) (value : Toml) :
    Option TransportSettings := do
  let fields ← value.record? ["max_queue_size", "close_grace_secs", "flush_timeout_ms"]
  pure {
    maxQueueSize := ← Toml.field? Toml.nat? fields "max_queue_size" base.maxQueueSize
    closeGraceSecs := ← Toml.field? Toml.nat? fields "close_grace_secs" base.closeGraceSecs
    flushTimeoutMs := ← Toml.field? Toml.nat? fields "flush_timeout_ms" base.flushTimeoutMs }

/-- The settings of the cache that a value gives, with `base` for what it does not give. -/
def CacheSettings.ofToml? (base : CacheSettings) (value : Toml) : Option CacheSettings := do
  let fields ← value.record? ["dir", "max_items"]
  pure {
    dir := ← Toml.field? Toml.string? fields "dir" base.dir
    maxItems := ← Toml.field? Toml.nat? fields "max_items" base.maxItems }

namespace Settings

/-- The settings that a document gives, with `base` for what it does not give. -/
def ofText? (base : Settings) (text : String) : Option Settings := do
  let members ← Toml.parse? text.toList
  pure {
    transport := ←
      Toml.field? (TransportSettings.ofToml? base.transport) members "transport" base.transport
    cache := ← Toml.field? (CacheSettings.ofToml? base.cache) members "cache" base.cache }

/-- A line that gives a name a value. -/
def line (name : String) (value : List Char) : List Char :=
  name.toList ++ [' ', '=', ' '] ++ value ++ ['\n']

/-- The digits of a number. -/
def digits (n : Nat) : List Char := Nat.toDigits 10 n

/-- The document that gives these settings. -/
def render (s : Settings) : String :=
  String.ofList (
    "[transport]\n".toList ++
    line "max_queue_size" (digits s.transport.maxQueueSize) ++
    line "close_grace_secs" (digits s.transport.closeGraceSecs) ++
    line "flush_timeout_ms" (digits s.transport.flushTimeoutMs) ++
    "\n[cache]\n".toList ++
    line "dir" (Toml.quote s.cache.dir.toList) ++
    line "max_items" (digits s.cache.maxItems))

end Settings
end Courier
