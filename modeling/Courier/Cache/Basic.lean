import Courier.Cache.Disk

/-!
# Envelope caches

Where envelopes are kept until they are delivered: nowhere, in the memory of whoever records what is
stored, or on disk. A recording cache may break off a call.
-/

namespace Courier

/-- An envelope cache. -/
inductive Cache where
  | none
  | recording (storeFault discardFault : Envelope → Option Fault)
  | disk (cache : DiskCache)

/-- What a call of a cache did: the files afterwards, what was logged, and the fault by which the
call broke off. -/
structure Cache.Effect where
  files : FileSystem
  notices : List Notice
  fault : Option Fault

namespace Cache

def store (c : Cache) (fs : FileSystem) (e : Envelope) : Effect :=
  match c with
  | .none => ⟨fs, [], Option.none⟩
  | .recording storeFault _ => ⟨fs, [], storeFault e⟩
  | .disk cache =>
    let (fs, notices) := cache.store fs e
    ⟨fs, notices, Option.none⟩

def discard (c : Cache) (fs : FileSystem) (e : Envelope) : Effect :=
  match c with
  | .none => ⟨fs, [], Option.none⟩
  | .recording _ discardFault => ⟨fs, [], discardFault e⟩
  | .disk cache =>
    let (fs, notices) := cache.discard fs e
    ⟨fs, notices, Option.none⟩

end Cache
end Courier
