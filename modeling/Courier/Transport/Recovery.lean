import Courier.Transport.Basic

/-!
# Recovery

Envelopes that an earlier run left in the cache are sent again, one after the other, and discarded
when they are delivered.
-/

namespace Courier.Transport

/-- What became of an envelope that was sent again. -/
structure Recovered where
  envelope : Envelope
  success : Bool
  retry : Bool
  deriving DecidableEq, Repr

/-- Add a hint to the hints. -/
def addHint (h : Hint) (w : Collaborators) : HintId × Collaborators :=
  (w.hints.length, { w with hints := w.hints ++ [h] })

/-- Discard an envelope from a cache on disk. -/
def discardFrom (cache : DiskCache) (e : Envelope) (w : Collaborators) : Collaborators :=
  let (files, notices) := cache.discard w.files e
  ({ w with files }).logAll here notices

/-- Send an envelope again, and discard it from its cache if it is delivered. -/
def resend (cache : DiskCache) (e : Envelope) (t : Transport) (w : Collaborators) :
    Recovered × Transport × Collaborators :=
  let (id, w) := addHint Hint.cached w
  let (_, t, w) := t.send e (some id) w
  let (t, w) := t.settle w
  let hint := (w.hints[id]?).getD Hint.cached
  let w := if hint.isSuccess then discardFrom cache e w else w
  (⟨e, hint.isSuccess, hint.isRetry⟩, t, w)

/-- Send envelopes again, in order. -/
def resendAll (cache : DiskCache) : List Envelope → Transport → Collaborators →
    List Recovered × Transport × Collaborators
  | [], t, w => ([], t, w)
  | e :: more, t, w =>
    let (first, t, w) := resend cache e t w
    let (rest, t, w) := resendAll cache more t w
    (first :: rest, t, w)

/-- Send everything again that a cache on disk holds. -/
def recover (cache : DiskCache) (t : Transport) (w : Collaborators) :
    List Recovered × Transport × Collaborators :=
  let (envelopes, keys, notices) := cache.loadAll w.files w.keys
  resendAll cache envelopes t (({ w with keys }).logAll here notices)

end Courier.Transport
