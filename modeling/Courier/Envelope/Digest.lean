import Courier.Blake3.Hash
import Courier.Envelope.Basic

/-!
# Content digests

The digest of an envelope covers its event id and its items, and neither its key nor the time it
was sent. `Envelope.preimage` is what is hashed; `Envelope.label` names the envelope in log lines.
-/

namespace Courier

namespace Item

/-- The item as it is hashed: its category's name, the length of its payload and the payload. -/
def preimage (i : Item) : Bytes :=
  Bytes.ofText i.category.name ++ Bytes.littleEndian 8 i.payload.length ++ i.payload

end Item

namespace Envelope

/-- The event id as it is hashed, after a byte that says whether there is one. -/
def eventIdPreimage : Option String → Bytes
  | some id => 1 :: (Bytes.littleEndian 8 (Bytes.ofText id).length ++ Bytes.ofText id)
  | none => [0]

/-- The bytes that the digest is the hash of. -/
def preimage (e : Envelope) : Bytes :=
  eventIdPreimage e.eventId ++ e.items.flatMap Item.preimage

/-- The content digest, in hexadecimal. -/
def digest (e : Envelope) : String := Bytes.hex (Blake3.hash e.preimage)

/-- A short name for log lines: the event id, else the first 16 digits of the digest. -/
def label (e : Envelope) : String :=
  match e.eventId with
  | some id => id
  | none => Bytes.hex ((Blake3.hash e.preimage).take 8)

end Envelope
end Courier
