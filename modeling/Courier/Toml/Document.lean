import Courier.Toml.Scalar

/-!
# Reading TOML

`Toml.parse?` reads a document. A line names a value in the table that the last header opened; a
header closes that table and puts it in its place.
-/

namespace Courier.Toml

/-! ## Values -/

/-- Add a value under a dotted key. -/
def addPair? (origin : Origin) (members : Members) (key : List String) (value : Toml) :
    Option Members :=
  match key.getLast? with
  | none => none
  | some name => insertAt key.dropLast name value origin members

/-- The table of the pairs between braces. -/
def closedTable? (pairs : List (List String × Toml)) : Option Toml :=
  (pairs.foldlM (fun members pair => addPair? .closed members pair.1 pair.2) []).map
    (.table .closed)

mutual

/-- A value and what is left behind it. `room` is how deep values may still be nested, and each step
takes one unit of `fuel`. -/
def value? : (fuel room : Nat) → List Char → Option (Toml × List Char)
  | 0, _, _ => none
  | fuel + 1, room, s =>
    match s with
    | '"' :: _ | '\'' :: _ => (text? s).map fun (value, rest) => (.text (String.ofList value), rest)
    | '[' :: rest =>
      if room = 0 then none
      else (elements? fuel (room - 1) rest).map fun (values, rest) => (.array values, rest)
    | '\x7b' :: rest =>
      if room = 0 then none
      else match skipBlanks rest with
        | '\x7d' :: rest => some (.table .closed [], rest)
        | rest =>
          (pairs? fuel (room - 1) rest).bind fun (pairs, rest) =>
            (closedTable? pairs).map fun table => (table, rest)
    | s => scalar? s

/-- The elements of an array up to its bracket. Blanks, comments and line breaks may stand between
them, and a comma behind the last one. -/
def elements? : (fuel room : Nat) → List Char → Option (List Toml × List Char)
  | 0, _, _ => none
  | fuel + 1, room, s =>
    match skipLines? false s with
    | none => none
    | some (']' :: rest) => some ([], rest)
    | some s =>
      match value? fuel room s with
      | none => none
      | some (value, rest) =>
        match skipLines? false rest with
        | some (',' :: rest) =>
          (elements? fuel room rest).map fun (more, rest) => (value :: more, rest)
        | some (']' :: rest) => some ([value], rest)
        | _ => none

/-- The pairs of a table between braces, of which there is one more, up to its brace. -/
def pairs? : (fuel room : Nat) → List Char → Option (List (List String × Toml) × List Char)
  | 0, _, _ => none
  | fuel + 1, room, s =>
    match key? s with
    | some (key, '=' :: rest) =>
      match value? fuel room (skipBlanks rest) with
      | none => none
      | some (value, rest) =>
        match skipBlanks rest with
        | ',' :: rest => (pairs? fuel room rest).map fun (more, rest) => ((key, value) :: more, rest)
        | '\x7d' :: rest => some ([(key, value)], rest)
        | _ => none
    | _ => none

end

/-! ## Lines -/

/-- A line that says something. -/
inductive Line where
  | pair (key : List String) (value : Toml)
  | header (key : List String)
  | element (key : List String)

/-- The line at the start of a text of at most `bound` characters, and what is left behind its end.
Four units of fuel for a character are enough. -/
def line? (bound : Nat) (s : List Char) : Option (Line × List Char) :=
  match s with
  | '[' :: '[' :: rest =>
    match key? rest with
    | some (key, ']' :: ']' :: rest) => (nextLine? rest).map fun rest => (.element key, rest)
    | _ => none
  | '[' :: rest =>
    match key? rest with
    | some (key, ']' :: rest) => (nextLine? rest).map fun rest => (.header key, rest)
    | _ => none
  | s =>
    match key? s with
    | some (key, '=' :: rest) =>
      (value? (4 * bound + 4) (depthBound - 1) (skipBlanks rest)).bind fun (value, rest) =>
        (nextLine? rest).map fun rest => (.pair key value, rest)
    | _ => none

/-- The lines of a text that say something; `fuel` is more than the characters of the text. -/
def lines? : (fuel : Nat) → List Char → Option (List Line)
  | 0, _ => none
  | fuel + 1, s =>
    match skipBlanks s with
    | [] => some []
    | '#' :: rest => (lineEnd? (rest.dropWhile isCommentChar)).bind (lines? fuel)
    | '\n' :: rest => lines? fuel rest
    | '\r' :: rest => (lineBreak? ('\r' :: rest)).bind (lines? fuel)
    | s => (line? fuel s).bind fun (line, rest) => (lines? fuel rest).map (line :: ·)

/-! ## Documents -/

/-- A document in the making: the finished tables, and the table that is open with the header that
opened it. Without a header it is the document itself. -/
structure Draft where
  finished : Members
  path : List String
  isElement : Bool
  members : Members

namespace Draft

def empty : Draft := ⟨[], [], false, []⟩

/-- Put the open table in its place. -/
def finish? (d : Draft) : Option Members :=
  match d.path.getLast? with
  | none => some d.members
  | some name =>
    updateAt .implied
      (fun _ parent =>
        match parent.lookup name with
        | none =>
          some (parent ++ [(name,
            if d.isElement then .tables [d.members] else .table .header d.members)])
        | some (.tables elements) =>
          if d.isElement then some (replace name (.tables (elements ++ [d.members])) parent)
          else none
        | some _ => none)
      d.path.dropLast .header d.finished

/-- The members of the table at the end of a path, none where it is not there yet. -/
def membersAt : List String → Members → Option Members
  | [], members => some members
  | name :: path, members =>
    match members.lookup name with
    | none => some []
    | some (.table origin inner) => if origin = .closed then none else membersAt path inner
    | some (.tables elements) => elements.getLast?.bind (membersAt path)
    | some _ => none

/-- Open a table that a header names. A table that was only implied is opened with what it holds. -/
def openTable? (key : List String) (finished : Members) : Option Draft :=
  match key.getLast? with
  | none => none
  | some name => do
    let members ← match (← membersAt key.dropLast finished).lookup name with
      | none => some []
      | some (.table .implied members) => some members
      | some _ => none
    let finished ← updateAt .implied (fun _ parent => some (without name parent)) key.dropLast
      .header finished
    pure ⟨finished, key, false, members⟩

/-- Open another table of the sequence that a header names. -/
def openElement? (key : List String) (finished : Members) : Option Draft :=
  match key.getLast? with
  | none => none
  | some name => do
    let finished ← updateAt .implied
      (fun _ parent =>
        match parent.lookup name with
        | none | some (.tables _) => some parent
        | some _ => none)
      key.dropLast .header finished
    pure ⟨finished, key, true, []⟩

/-- Take in one line. -/
def add? (d : Draft) : Line → Option Draft
  | .pair key value => (addPair? .header d.members key value).map fun members => { d with members }
  | .header key => d.finish?.bind (openTable? key)
  | .element key => d.finish?.bind (openElement? key)

end Draft

/-- A text without the byte order mark that it may begin with. -/
def skipMark : List Char → List Char
  | '\ufeff' :: rest => rest
  | s => s

/-- The members of the document that a text is. -/
def parse? (s : List Char) : Option Members :=
  (lines? (s.length + 1) (skipMark s)).bind fun lines =>
    (lines.foldlM Draft.add? Draft.empty).bind Draft.finish?

end Courier.Toml
