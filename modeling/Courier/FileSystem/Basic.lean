import Courier.Bytes
import Courier.Path

/-!
# A file system

Files and directories by their location, with modification times and a clock that every change
moves forward. `FileSystem.node?_put` and `FileSystem.node?_erase` describe the two changes through
the look-up `FileSystem.node?`; paths are resolved by `FileSystem.locate`.
-/

namespace Courier

/-- The names that lead to a file, the innermost first. -/
abbrev Location := List String

/-- What is found at a location. -/
inductive Content where
  | file (bytes : Bytes)
  | directory
  deriving DecidableEq, Repr

/-- A file or directory and the time of its last modification, in nanoseconds since the epoch. -/
structure Node where
  content : Content
  modified : Int
  deriving DecidableEq, Repr

/-- Why an operation on files failed. -/
inductive FileFault where
  | nulInPath
  | notFound
  | alreadyExists
  | notDirectory
  | isDirectory
  | nameTooLong
  | notText
  deriving DecidableEq, Repr

/-- The wording of a fault. -/
def FileFault.message : FileFault → String
  | .nulInPath => "file name contained an unexpected NUL byte"
  | .notFound => "No such file or directory (os error 2)"
  | .alreadyExists => "File exists (os error 17)"
  | .notDirectory => "Not a directory (os error 20)"
  | .isDirectory => "Is a directory (os error 21)"
  | .nameTooLong => "File name too long (os error 36)"
  | .notText => "stream did not contain valid UTF-8"

/-- All files and directories but the root, and the clock. Relative paths begin at
`workingDirectory`. -/
structure FileSystem where
  nodes : List (Location × Node)
  workingDirectory : Location
  clock : Int
  deriving DecidableEq, Repr

namespace FileSystem

/-- How far the clock moves with every change, in nanoseconds. -/
def tick : Int := 1000000

/-- What is found at a location. The root is always a directory. -/
def node? (fs : FileSystem) (l : Location) : Option Node :=
  if l = [] then some ⟨.directory, 0⟩ else fs.nodes.lookup l

/-- Place a node at a location. -/
def put (fs : FileSystem) (l : Location) (n : Node) : FileSystem :=
  { fs with nodes := (l, n) :: fs.nodes.filter fun e => e.1 ≠ l }

/-- Remove what is at a location. -/
def erase (fs : FileSystem) (l : Location) : FileSystem :=
  { fs with nodes := fs.nodes.filter fun e => e.1 ≠ l }

theorem lookup_filter_ne {α β : Type} [BEq α] [LawfulBEq α] [DecidableEq α] {xs : List (α × β)}
    {a b : α} (h : b ≠ a) : (xs.filter fun e => e.1 ≠ a).lookup b = xs.lookup b := by
  induction xs with
  | nil => rfl
  | cons e rest ih =>
    by_cases he : e.1 = a
    · have hb : (b == e.1) = false := by simpa [he] using h
      rw [List.filter_cons_of_neg (by simpa using he), ih, List.lookup_cons, hb]
    · rw [List.filter_cons_of_pos (by simpa using he), List.lookup_cons, List.lookup_cons, ih]

theorem lookup_filter_self {α β : Type} [BEq α] [LawfulBEq α] [DecidableEq α] {xs : List (α × β)}
    {a : α} : (xs.filter fun e => e.1 ≠ a).lookup a = none := by
  rw [List.lookup_eq_none_iff]
  intro e he
  have hne : e.1 ≠ a := by simpa using (List.mem_filter.1 he).2
  simpa using hne.symm

theorem node?_put {fs : FileSystem} {l m : Location} {n : Node} (hm : m ≠ []) :
    (fs.put l n).node? m = if m = l then some n else fs.node? m := by
  by_cases h : m = l
  · subst h; simp [node?, put, hm]
  · have hl : (m == l) = false := by simpa using h
    simp only [node?, put, hm, if_false, h, List.lookup_cons, hl]
    exact lookup_filter_ne h

theorem node?_erase {fs : FileSystem} {l m : Location} (hm : m ≠ []) :
    (fs.erase l).node? m = if m = l then none else fs.node? m := by
  by_cases h : m = l
  · subst h; simp only [node?, erase, hm, if_false, if_true]; exact lookup_filter_self
  · simp only [node?, erase, hm, if_false, h]; exact lookup_filter_ne h

/-- Let time pass. -/
def advance (fs : FileSystem) : FileSystem := { fs with clock := fs.clock + tick }

/-- Mark a directory as modified now. -/
def stamp (fs : FileSystem) (l : Location) : FileSystem :=
  match fs.node? l with
  | some n => if l = [] then fs else fs.put l { n with modified := fs.clock }
  | none => fs

/-- The names in a directory with what they stand for. -/
def children (fs : FileSystem) (l : Location) : List (String × Node) :=
  fs.nodes.filterMap fun
    | (name :: parent, n) => if parent = l then some (name, n) else none
    | ([], _) => none

/-! ## Resolving paths -/

/-- The longest name, in bytes. -/
def maxName : Nat := 255

/-- One more than the longest path, in bytes. -/
def pathBound : Nat := 4096

/-- Follow one name from a location, which has to be a directory. -/
def enter (fs : FileSystem) (l : Location) (name : String) : Except FileFault Location :=
  match fs.node? l with
  | none => .error .notFound
  | some ⟨.file _, _⟩ => .error .notDirectory
  | some ⟨.directory, _⟩ =>
    if name = "." then .ok l
    else if name = ".." then .ok l.tail
    else if maxName < name.utf8ByteSize then .error .nameTooLong
    else .ok (name :: l)

/-- The location to which a path leads, whether or not something is there. Everything before its
last name has to be a directory. -/
def locate (fs : FileSystem) (path : String) : Except FileFault Location :=
  if '\x00' ∈ path.toList then .error .nulInPath
  else if path = "" then .error .notFound
  else if pathBound ≤ path.utf8ByteSize then .error .nameTooLong
  else
    (Path.names path).foldlM fs.enter (if Path.isAbsolute path then [] else fs.workingDirectory)

/-- The node to which a path leads. Behind a separator it has to be a directory. -/
def find (fs : FileSystem) (path : String) : Except FileFault (Location × Node) := do
  let l ← fs.locate path
  match fs.node? l with
  | none => .error .notFound
  | some ⟨.file bytes, modified⟩ =>
    if Path.endsInSeparator path then .error .notDirectory
    else .ok (l, ⟨.file bytes, modified⟩)
  | some ⟨.directory, modified⟩ => .ok (l, ⟨.directory, modified⟩)

end FileSystem
end Courier
