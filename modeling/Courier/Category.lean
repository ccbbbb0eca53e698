/-!
# Data categories

Every item of an envelope belongs to a category, and rate limits are set per category.
`Category.ofName?_eq_some` says that a name is read as the category that bears it.
-/

namespace Courier

/-- What kind of data an item carries. A limit on `default` counts for every category. -/
inductive Category where
  | default
  | error
  | session
  | transaction
  | attachment
  | profile
  | monitor
  deriving DecidableEq, Repr

namespace Category

/-- All categories, in the order in which they are listed. -/
def all : List Category :=
  [.default, .error, .session, .transaction, .attachment, .profile, .monitor]

theorem mem_all (c : Category) : c ∈ all := by
  cases c <;> decide

/-- The name of a category in headers, stored envelopes and log lines. -/
def name : Category → String
  | .default => "default"
  | .error => "error"
  | .session => "session"
  | .transaction => "transaction"
  | .attachment => "attachment"
  | .profile => "profile"
  | .monitor => "monitor"

/-- The category with this name. -/
def ofName? (s : String) : Option Category := all.find? fun c => c.name == s

theorem ofName?_eq_some {s : String} {c : Category} : ofName? s = some c ↔ c.name = s := by
  constructor
  · intro h
    simpa using List.find?_some h
  · rintro rfl
    cases c <;> decide

@[simp] theorem ofName?_name (c : Category) : ofName? c.name = some c := ofName?_eq_some.2 rfl

/-- What is said about a name that no category bears. -/
def unknownMessage (s : String) : String := "unknown data category: " ++ s

end Category
end Courier
