import Courier.FileSystem.Basic

/-!
# Operations on files

Reading, writing, renaming and removing by path. An operation that fails leaves everything as it
was, but for `FileSystem.makeDirectories`, which keeps the directories that it made on the way.
-/

namespace Courier.FileSystem

/-- Whether something can be found under a path. -/
def contains (fs : FileSystem) (path : String) : Bool :=
  match fs.find path with
  | .ok _ => true
  | .error _ => false

/-- Whether a directory can be found under a path. -/
def isDirectory (fs : FileSystem) (path : String) : Bool :=
  match fs.find path with
  | .ok (_, ⟨.directory, _⟩) => true
  | _ => false

/-- The bytes of a file. -/
def read (fs : FileSystem) (path : String) : Except FileFault Bytes := do
  match ← fs.find path with
  | (_, ⟨.file bytes, _⟩) => pure bytes
  | (_, ⟨.directory, _⟩) => .error .isDirectory

/-- The text of a file. -/
def readText (fs : FileSystem) (path : String) : Except FileFault String := do
  match Bytes.text? (← fs.read path) with
  | some s => pure s
  | none => .error .notText

/-- A change to the directory that holds a location, which is now modified. -/
def changeAt (fs : FileSystem) (l : Location) (change : FileSystem → FileSystem) : FileSystem :=
  let fs := fs.advance
  (change fs).stamp l.tail

/-- Write a file, in place of one that is there. -/
def write (fs : FileSystem) (path : String) (bytes : Bytes) : Except FileFault FileSystem := do
  let l ← fs.locate path
  if Path.endsInSeparator path then .error .isDirectory
  else match fs.node? l with
    | some ⟨.directory, _⟩ => .error .isDirectory
    | some ⟨.file _, _⟩ =>
      let fs := fs.advance
      pure (fs.put l ⟨.file bytes, fs.clock⟩)
    | none => pure (fs.changeAt l fun fs => fs.put l ⟨.file bytes, fs.clock⟩)

/-- Make a directory. -/
def makeDirectory (fs : FileSystem) (path : String) : Except FileFault FileSystem := do
  let l ← fs.locate path
  match fs.node? l with
  | some _ => .error .alreadyExists
  | none => pure (fs.changeAt l fun fs => fs.put l ⟨.directory, fs.clock⟩)

/-- Make a directory, unless it is there already. -/
def ensureDirectory (fs : FileSystem) (path : String) : FileSystem × Except FileFault Unit :=
  match fs.makeDirectory path with
  | .ok fs => (fs, .ok ())
  | .error e => (fs, if fs.isDirectory path then .ok () else .error e)

/-- Make a directory, and first the one that holds it if it is missing; `fuel` bounds how far up. -/
def makeDirectoriesUpTo : (fuel : Nat) → FileSystem → String →
    FileSystem × Except FileFault Unit
  | 0, fs, _ => (fs, .error .notFound)
  | fuel + 1, fs, path =>
    if path = "" then (fs, .ok ())
    else match fs.makeDirectory path, Path.parent? path with
      | .error .notFound, some parent =>
        match makeDirectoriesUpTo fuel fs parent with
        | (fs, .ok ()) => fs.ensureDirectory path
        | (fs, .error e) => (fs, .error e)
      | _, _ => fs.ensureDirectory path

/-- Make a directory and all that lead to it. Those that are made stay, also when one further down
cannot be made. -/
def makeDirectories (fs : FileSystem) (path : String) : FileSystem × Except FileFault Unit :=
  makeDirectoriesUpTo (path.length + 1) fs path

/-- Remove a file. -/
def remove (fs : FileSystem) (path : String) : Except FileFault FileSystem := do
  match ← fs.find path with
  | (_, ⟨.directory, _⟩) => .error .isDirectory
  | (l, ⟨.file _, _⟩) => pure (fs.changeAt l fun fs => fs.erase l)

/-- Give a file another name, in place of a file that bears it. Directories are not renamed. -/
def rename (fs : FileSystem) (source target : String) : Except FileFault FileSystem := do
  let (l, n) ← fs.find source
  let m ← fs.locate target
  if n.content = .directory then .error .isDirectory
  else if Path.endsInSeparator target then .error .notDirectory
  else match fs.node? m with
    | some ⟨.directory, _⟩ => .error .isDirectory
    | _ =>
      if l = m then pure fs
      else
        let fs := fs.changeAt l fun fs => fs.erase l
        pure ((fs.put m n).stamp m.tail)

/-- The names in a directory and what they stand for. -/
def list (fs : FileSystem) (path : String) : Except FileFault (List (String × Node)) := do
  match ← fs.find path with
  | (l, ⟨.directory, _⟩) => pure (fs.children l)
  | (_, ⟨.file _, _⟩) => .error .notDirectory

/-- Remove what is under a path, with all that a directory holds. -/
def removeAll (fs : FileSystem) (path : String) : Except FileFault FileSystem := do
  let (l, _) ← fs.find path
  pure (fs.changeAt l fun fs =>
    { fs with nodes := fs.nodes.filter fun e => ¬ l <:+ e.1 })

/-- Set the modification time of what is under a path. -/
def setModified (fs : FileSystem) (path : String) (time : Int) : Except FileFault FileSystem := do
  let (l, n) ← fs.find path
  pure (fs.put l { n with modified := time })

end Courier.FileSystem
