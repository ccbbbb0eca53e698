import Courier.Bytes
import Courier.Category
import Courier.Timestamp

/-!
# Envelopes

An envelope is the unit of delivery: a header and an ordered list of items with opaque payloads.
It is never edited in place; `Envelope.retain` makes another one. The key names one submission, so
two envelopes of equal content are still told apart.
-/

namespace Courier

/-- One opaque item of an envelope. -/
structure Item where
  category : Category
  payload : Bytes
  deriving DecidableEq, Repr

/-- What is known of an envelope besides its items. -/
structure Header where
  eventId : Option String
  sentAt : Option Timestamp
  deriving DecidableEq, Repr

/-- An ordered batch of items, delivered as one. -/
structure Envelope where
  key : String
  header : Header
  items : List Item
  deriving DecidableEq, Repr

namespace Envelope

def eventId (e : Envelope) : Option String := e.header.eventId

def isEmpty (e : Envelope) : Bool := e.items.isEmpty

/-- The envelope with the items that `keep` accepts, under the same key and header. -/
def retain (e : Envelope) (keep : Item → Bool) : Envelope :=
  { e with items := e.items.filter keep }

/-- The envelope with the items at the positions that `keep` accepts. -/
def retainAt (e : Envelope) (keep : Nat → Bool) : Envelope :=
  { e with items := (e.items.zipIdx.filter fun i => keep i.2).map Prod.fst }

@[simp] theorem key_retain (e : Envelope) (keep : Item → Bool) : (e.retain keep).key = e.key := rfl

@[simp] theorem header_retain (e : Envelope) (keep : Item → Bool) :
    (e.retain keep).header = e.header := rfl

@[simp] theorem items_retain (e : Envelope) (keep : Item → Bool) :
    (e.retain keep).items = e.items.filter keep := rfl

end Envelope
end Courier
