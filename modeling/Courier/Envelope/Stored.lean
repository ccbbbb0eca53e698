import Courier.Envelope.Key
import Courier.Envelope.Basic
import Courier.Json.Parser
import Courier.Json.Record
import Courier.Text.Natural

/-!
# Stored envelopes

The JSON form in which envelopes are kept on disk. `Envelope.write?` writes it and fails exactly for
a time before the epoch; `Stored.read?` reads it back. An entry that was stored without a key is
given a fresh one by `Stored.resume`.
-/

namespace Courier

/-! ## Writing -/

/-- The form of a time: seconds and nanoseconds since the epoch. -/
def Timestamp.toJson? (t : Timestamp) : Option Json :=
  if t.isBeforeEpoch then none
  else some (.object [
    (Bytes.ofText "secs_since_epoch", .ofNat t.seconds),
    (Bytes.ofText "nanos_since_epoch", .ofNat t.subsecond)])

/-- The form of an item: the name of its category and its bytes as numbers. -/
def Item.toJson (i : Item) : Json :=
  .object [
    (Bytes.ofText "category", .ofText i.category.name),
    (Bytes.ofText "payload", .array (i.payload.map fun b => .ofNat b.toNat))]

/-- The form of a value that may be absent. -/
def optionToJson? {α : Type} (toJson? : α → Option Json) : Option α → Option Json
  | none => some .null
  | some a => toJson? a

/-- The form of a header. -/
def Header.toJson? (h : Header) : Option Json := do
  let eventId ← optionToJson? (fun id => some (.ofText id)) h.eventId
  let sentAt ← optionToJson? Timestamp.toJson? h.sentAt
  pure (.object [(Bytes.ofText "event_id", eventId), (Bytes.ofText "sent_at", sentAt)])

namespace Envelope

/-- The form of an envelope. -/
def toJson? (e : Envelope) : Option Json := do
  let header ← e.header.toJson?
  pure (.object [
    (Bytes.ofText "key", .ofText e.key),
    (Bytes.ofText "header", header),
    (Bytes.ofText "items", .array (e.items.map Item.toJson))])

/-- The bytes under which an envelope is stored, unless its time is before the epoch. -/
def write? (e : Envelope) : Option Bytes := e.toJson?.map Json.print

/-- Why an envelope cannot be written. -/
def writeFault : String := "SystemTime must be later than UNIX_EPOCH"

theorem write?_eq_none_iff {e : Envelope} :
    e.write? = none ↔ ∃ t, e.header.sentAt = some t ∧ t.isBeforeEpoch = true := by
  obtain ⟨key, ⟨eventId, sentAt⟩, items⟩ := e
  cases eventId <;> cases sentAt with
  | none => simp [write?, toJson?, Header.toJson?, optionToJson?]
  | some t =>
    cases h : t.isBeforeEpoch <;>
      simp [write?, toJson?, Header.toJson?, optionToJson?, Timestamp.toJson?, h]

end Envelope

/-! ## Reading -/

/-- The time that a stored form gives. Both fields must be there, and no other. -/
def Timestamp.ofJson? (j : Json) : Option Timestamp := do
  let fields ← j.record? ["secs_since_epoch", "nanos_since_epoch"] false
  let seconds ← (fields.lookup "secs_since_epoch").bind (Json.nat? Text.wordBound)
  let nanos ← (fields.lookup "nanos_since_epoch").bind (Json.nat? 4294967296)
  Timestamp.ofNanos? (seconds * nanosPerSecond + nanos)

/-- The category that a stored form gives: its name, or its name as the only member of an object
without a value. -/
def Category.ofJson? : Json → Option Category
  | .string raw => (Json.text? raw).bind ofName?
  | .object [(raw, .null)] => (Json.text? raw).bind ofName?
  | _ => none

/-- The payload that a stored form gives: its bytes as numbers, or as a string. -/
def payloadOfJson? : Json → Option Bytes
  | .string raw => Json.rawBytes? raw
  | .array elements => elements.mapM fun j => (j.nat? 256).map UInt8.ofNat
  | _ => none

/-- The item that a stored form gives. -/
def Item.ofJson? (j : Json) : Option Item := do
  let fields ← j.record? ["category", "payload"] true
  let category ← (fields.lookup "category").bind Category.ofJson?
  let payload ← (fields.lookup "payload").bind payloadOfJson?
  pure ⟨category, payload⟩

/-- The value that a stored form gives where it may be absent. -/
def optionOfJson? {α : Type} (ofJson? : Json → Option α) : Option Json → Option (Option α)
  | none | some .null => some none
  | some j => (ofJson? j).map some

/-- The header that a stored form gives. -/
def Header.ofJson? (j : Json) : Option Header := do
  let fields ← j.record? ["event_id", "sent_at"] true
  let eventId ← optionOfJson? Json.asText? (fields.lookup "event_id")
  let sentAt ← optionOfJson? Timestamp.ofJson? (fields.lookup "sent_at")
  pure ⟨eventId, sentAt⟩

/-- A stored envelope. Older entries have no key. -/
structure Stored where
  key : Option String
  header : Header
  items : List Item
  deriving DecidableEq, Repr

namespace Stored

/-- The items that a stored form gives. -/
def itemsOfJson? : Json → Option (List Item)
  | .array elements => elements.mapM Item.ofJson?
  | _ => none

/-- The key that a stored form gives, if there is one. -/
def keyOfJson? : Option Json → Option (Option String)
  | none => some none
  | some j => j.asText?.map some

/-- The envelope that a stored form gives. -/
def ofJson? (j : Json) : Option Stored := do
  let fields ← j.record? ["key", "header", "items"] true
  let key ← keyOfJson? (fields.lookup "key")
  let header ← (fields.lookup "header").bind Header.ofJson?
  let items ← (fields.lookup "items").bind itemsOfJson?
  pure ⟨key, header, items⟩

/-- The envelope stored under these bytes. -/
def read? (b : Bytes) : Option Stored := (Json.parse? b).bind ofJson?

/-- The envelope itself, under a fresh key if it was stored without one. -/
def resume (source : KeySource) (s : Stored) : Envelope × KeySource :=
  match s.key with
  | some key => (⟨key, s.header, s.items⟩, source)
  | none => (⟨source.key, s.header, s.items⟩, source.next)

end Stored
end Courier
