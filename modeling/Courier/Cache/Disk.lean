import Courier.Envelope.Digest
import Courier.Envelope.Stored
import Courier.FileSystem.Operations
import Courier.Notice

/-!
# The envelope cache on disk

Every envelope has a file of its own, named by its key, in one directory. The cache keeps a bounded
number of them and gives up the oldest. A file is written under a temporary name first and then
renamed.
-/

namespace Courier

/-- An envelope cache: its directory and how many envelopes it keeps at most. -/
structure DiskCache where
  root : String
  maxItems : Nat
  deriving DecidableEq, Repr

namespace DiskCache

/-- The extension of the files that hold envelopes. -/
def extension : String := "envelope"

/-- Why an envelope was not stored. -/
inductive StoreError where
  | evict (path : String) (fault : FileFault)
  | serialize
  | create (path : String) (fault : FileFault)
  | rename (source target : String) (fault : FileFault)
  deriving DecidableEq, Repr

def StoreError.message : StoreError → String
  | .evict path fault => "failed to evict " ++ path ++ ": " ++ fault.message
  | .serialize => "failed to serialize envelope: " ++ Envelope.writeFault
  | .create path fault => "failed to create temp file: " ++ path ++ ": " ++ fault.message
  | .rename source target fault =>
    "failed to rename " ++ source ++ " to " ++ target ++ ": " ++ fault.message

/-- Open a cache in a directory, which is made if it is missing. At least one envelope is kept. -/
def create (fs : FileSystem) (root : String) (maxItems : Nat) :
    FileSystem × Except CacheError DiskCache :=
  match fs.makeDirectories root with
  | (fs, .error fault) => (fs, .error (.root root fault))
  | (fs, .ok ()) => (fs, .ok ⟨root, max maxItems 1⟩)

/-- Open the cache that the settings describe. -/
def ofSettings (fs : FileSystem) (s : CacheSettings) : FileSystem × Except CacheError DiskCache :=
  match s.validate with
  | .error e => (fs, .error (.settings e))
  | .ok () => create fs s.dir s.maxItems

/-- The file of a key. -/
def entryPath (c : DiskCache) (key : String) : String :=
  Path.join c.root (key ++ "." ++ extension)

/-- The file to which the envelope of a key is written first. -/
def temporaryPath (c : DiskCache) (key : String) : String :=
  Path.withExtension (c.entryPath key) "tmp"

/-- A file that holds an envelope: when it was modified, and its name. -/
structure Entry where
  modified : Int
  name : String
  deriving DecidableEq, Repr

/-- The order of age; of two entries of one age the one of the smaller name comes first. -/
def Entry.le (a b : Entry) : Bool :=
  decide (a.modified < b.modified) || (a.modified == b.modified && decide (a.name ≤ b.name))

/-- Whether a name in the directory is that of an entry. -/
def isEntryName (name : String) : Bool := Path.extension? name == some extension

/-- When the file of a name was modified. The epoch stands for a time that cannot be read. -/
def modifiedAt (c : DiskCache) (fs : FileSystem) (name : String) : Int :=
  match fs.find (Path.join c.root name) with
  | .ok (_, node) => node.modified
  | .error _ => 0

/-- The entries in the directory, in no particular order. -/
def entries (c : DiskCache) (fs : FileSystem) : List Entry :=
  match fs.list c.root with
  | .error _ => []
  | .ok children =>
    (children.filter fun x => isEntryName x.1).map fun x => ⟨c.modifiedAt fs x.1, x.1⟩

/-- The entries, the oldest first. -/
def byAge (c : DiskCache) (fs : FileSystem) : List Entry := (c.entries fs).mergeSort Entry.le

/-- The path of an entry. -/
def pathOf (c : DiskCache) (e : Entry) : String := Path.join c.root e.name

/-- Whether the file of an envelope is there. -/
def contains (c : DiskCache) (fs : FileSystem) (e : Envelope) : Bool :=
  fs.contains (c.entryPath e.key)

def count (c : DiskCache) (fs : FileSystem) : Nat := (c.entries fs).length

/-! ## Storing -/

/-- What a change to the cache did: the files afterwards, what was logged, and the result. -/
structure Change (α : Type) where
  files : FileSystem
  notices : List Notice
  result : α

/-- Remove entries one after the other, up to the first that cannot be removed. -/
def evict (c : DiskCache) (fs : FileSystem) : List Entry → Change (Except StoreError Unit)
  | [] => ⟨fs, [], .ok ()⟩
  | e :: more =>
    match fs.remove (c.pathOf e) with
    | .error fault => ⟨fs, [], .error (.evict (c.pathOf e) fault)⟩
    | .ok fs =>
      let rest := evict c fs more
      { rest with notices := .entryEvicted (c.pathOf e) :: rest.notices }

/-- Remove the oldest entries until at most `keep` are left. -/
def evictDownTo (c : DiskCache) (fs : FileSystem) (keep : Nat) : Change (Except StoreError Unit) :=
  c.evict fs ((c.byAge fs).take (c.count fs - keep))

/-- Write the file of an envelope by way of its temporary file. -/
def writeEntry (c : DiskCache) (fs : FileSystem) (key : String) (bytes : Bytes) :
    FileSystem × Except StoreError Unit :=
  let temporary := c.temporaryPath key
  let path := c.entryPath key
  match fs.write temporary bytes with
  | .error fault => (fs, .error (.create temporary fault))
  | .ok fs =>
    match fs.rename temporary path with
    | .error fault => (fs, .error (.rename temporary path fault))
    | .ok fs => (fs, .ok ())

/-- Store an envelope, and say whether it was new. Room is made for it before it is written. -/
def tryStore (c : DiskCache) (fs : FileSystem) (e : Envelope) : Change (Except StoreError Bool) :=
  if c.contains fs e then ⟨fs, [], .ok false⟩
  else
    let evicted := c.evictDownTo fs (c.maxItems - 1)
    match evicted.result with
    | .error error => { evicted with result := .error error }
    | .ok () =>
      match e.write? with
      | none => { evicted with result := .error .serialize }
      | some bytes =>
        let (fs, written) := c.writeEntry evicted.files e.key bytes
        ⟨fs, evicted.notices, written.map fun _ => true⟩

/-- Store an envelope. Failure is logged and otherwise not reported. -/
def store (c : DiskCache) (fs : FileSystem) (e : Envelope) : FileSystem × List Notice :=
  let change := c.tryStore fs e
  let last := match change.result with
    | .ok true => .envelopeCached e.label
    | .ok false => .envelopeAlreadyCached e.label
    | .error error => .cachingFailed e.label error.message
  (change.files, change.notices ++ [last])

/-! ## Discarding -/

/-- Discard the file of an envelope. That there is none is not worth a log line. -/
def discard (c : DiskCache) (fs : FileSystem) (e : Envelope) : FileSystem × List Notice :=
  let path := c.entryPath e.key
  match fs.remove path with
  | .ok fs => (fs, [.envelopeDiscarded e.label])
  | .error .notFound => (fs, [])
  | .error fault => (fs, [.discardFailed e.label path fault.message])

/-- Remove every entry that can be removed. -/
def clear (c : DiskCache) (fs : FileSystem) : FileSystem :=
  (c.entries fs).foldl (fun fs e => (fs.remove (c.pathOf e)).toOption.getD fs) fs

/-! ## Loading -/

/-- Why an entry was skipped. -/
inductive LoadError where
  | read (path : String) (fault : FileFault)
  | parse (path : String)
  deriving DecidableEq, Repr

def LoadError.message : LoadError → String
  | .read path fault => "failed to read " ++ path ++ ": " ++ fault.message
  | .parse path => "failed to parse " ++ path

/-- The envelope in a file. -/
def readEntry (fs : FileSystem) (path : String) : Except LoadError Stored :=
  match fs.read path with
  | .error fault => .error (.read path fault)
  | .ok bytes =>
    match Stored.read? bytes with
    | none => .error (.parse path)
    | some s => .ok s

/-- The envelopes in the files, in order, under fresh keys where they were stored without one. Those
that cannot be read are skipped. -/
def loadPaths (fs : FileSystem) (keys : KeySource) : List String →
    List Envelope × KeySource × List Notice
  | [] => ([], keys, [])
  | path :: more =>
    match readEntry fs path with
    | .error error =>
      let (envelopes, keys, notices) := loadPaths fs keys more
      (envelopes, keys, .entrySkipped path error.message :: notices)
    | .ok s =>
      let (e, keys) := s.resume keys
      let (envelopes, keys, notices) := loadPaths fs keys more
      (e :: envelopes, keys, notices)

/-- Every envelope in the cache, the oldest first. -/
def loadAll (c : DiskCache) (fs : FileSystem) (keys : KeySource) :
    List Envelope × KeySource × List Notice :=
  loadPaths fs keys ((c.byAge fs).map c.pathOf)

end DiskCache
end Courier
