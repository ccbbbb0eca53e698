import Courier.Decimal

/-!
# TOML documents

A document is a table of values. `Toml.Origin` keeps how a table came to be, because that decides
whether later lines may add to it.
-/

namespace Courier

/-- How a table came to be. -/
inductive Toml.Origin where
  /-- Written between braces. -/
  | closed
  /-- Opened by a header. -/
  | header
  /-- Named on the way to another header. -/
  | implied
  /-- Named on the way to a dotted key. -/
  | dotted
  deriving DecidableEq, Repr

/-- A value of a document. The elements of `tables` are the tables that were opened one after the
other under the same name. -/
inductive Toml where
  | text (value : String)
  | integer (value : Int)
  | float (value : Decimal.Literal)
  | boolean (value : Bool)
  | dateTime
  | array (elements : List Toml)
  | table (origin : Toml.Origin) (members : List (String × Toml))
  | tables (elements : List (List (String × Toml)))

namespace Toml

/-- The members of a table. -/
abbrev Members := List (String × Toml)

/-- Whether a table exists only because something below it was named. -/
def Origin.isNamedOnly : Origin → Bool
  | .implied | .dotted => true
  | .closed | .header => false

/-- The members with another value for a name that is there. -/
def replace (name : String) (value : Toml) (members : Members) : Members :=
  members.map fun m => if m.1 = name then (name, value) else m

/-- The members without a name. -/
def without (name : String) (members : Members) : Members := members.filter fun m => m.1 ≠ name

/-- Change the table at the end of a path. Missing tables on the way are made with the origin
`missing`. A dotted key may only pass through tables that were themselves only named. -/
def updateAt (missing : Origin) (change : Origin → Members → Option Members) :
    List String → Origin → Members → Option Members
  | [], origin, members => change origin members
  | name :: path, _, members =>
    match members.lookup name with
    | none =>
      (updateAt missing change path missing []).map fun inner =>
        members ++ [(name, .table missing inner)]
    | some (.table origin inner) =>
      if origin = .closed then none
      else if missing = .dotted ∧ ¬ origin.isNamedOnly then none
      else (updateAt missing change path origin inner).map fun inner =>
        replace name (.table origin inner) members
    | some (.tables elements) =>
      match elements.getLast? with
      | none => none
      | some last => (updateAt missing change path .header last).map fun last =>
        replace name (.tables (elements.dropLast ++ [last])) members
    | some _ => none

/-- Add a value under a new name, at the end of a path of dotted keys. -/
def insertAt (path : List String) (name : String) (value : Toml) (origin : Origin)
    (members : Members) : Option Members :=
  updateAt .dotted
    (fun reached members =>
      if (path ≠ [] ∧ reached ≠ .dotted) ∨ (members.lookup name).isSome then none
      else some (members ++ [(name, value)]))
    path origin members

end Toml
end Courier
