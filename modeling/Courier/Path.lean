import Courier.Text.Fields

/-!
# File paths

Paths are texts with `/` between names. This file joins them, finds the directory that holds a path,
and takes apart and replaces the extension of its last name. `..` is a name without an extension.
-/

namespace Courier.Path

/-- Whether a path begins at the root. -/
def isAbsolute (path : String) : Bool := path.toList.head? == some '/'

/-- Whether a path ends in a separator. -/
def endsInSeparator (path : String) : Bool := path.toList.getLast? == some '/'

/-- The path of `name` under `base`. An absolute name stands by itself. -/
def join (base name : String) : String :=
  if isAbsolute name then name
  else if base = "" ∨ endsInSeparator base then base ++ name
  else base ++ "/" ++ name

/-- A reversed path without the separators and single dots at its end. -/
def trimEnd : List Char → List Char
  | '/' :: rest => if rest = [] then ['/'] else trimEnd rest
  | '.' :: '/' :: rest => if rest = [] then ['/'] else trimEnd ('/' :: rest)
  | s => s

/-- The reversed last name of a reversed path, and what stands before it. -/
def splitLast (s : List Char) : List Char × List Char :=
  (s.takeWhile (· ≠ '/'), s.dropWhile (· ≠ '/'))

/-- The directory that holds the path. The empty path and the root have none. -/
def parent? (path : String) : Option String :=
  let s := trimEnd path.toList.reverse
  if s = [] ∨ s = ['/'] then none
  else some (String.ofList (trimEnd (splitLast s).2).reverse)

/-- The last name of a path, unless it goes up or stays. -/
def name? (path : String) : Option (List Char) :=
  let name := (splitLast (trimEnd path.toList.reverse)).1.reverse
  if name = [] ∨ name = ['.'] ∨ name = ['.', '.'] then none else some name

/-- What stands before the last dot of a name, and what stands behind it. A dot at the start of the
name does not count. -/
def splitDot (name : List Char) : List Char × Option (List Char) :=
  let after := name.reverse.takeWhile (· ≠ '.')
  let before := (name.reverse.dropWhile (· ≠ '.')).drop 1
  if before = [] then (name, none) else (before.reverse, some after.reverse)

/-- The extension of the last name. -/
def extension? (path : String) : Option String :=
  ((name? path).bind fun name => (splitDot name).2).map String.ofList

/-- The path with another extension on what stands before the extension of its last name. Where
nothing is left that could bear an extension, only the old one is removed. -/
def withExtension (path extension : String) : String :=
  let s := path.toList
  let kept := match extension? path with
    | none => s
    | some old => s.take (s.length - old.length)
  match name? (String.ofList kept) with
  | none => String.ofList kept
  | some name =>
    let base := (trimEnd kept.reverse).reverse
    let stem := base.take (base.length - name.length) ++ (splitDot name).1
    String.ofList stem ++ "." ++ extension

/-- The names in a path, without empty ones. -/
def names (path : String) : List String :=
  ((Text.fields '/' path.toList).filter (· ≠ [])).map String.ofList

end Courier.Path
