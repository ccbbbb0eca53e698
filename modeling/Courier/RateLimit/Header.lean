import Courier.RateLimit.Table
import Courier.Text.Fields

/-!
# The rate-limit header, and changes of the limits

A header lists limits between commas. Each gives its seconds, the categories between semicolons, and
more that is not looked at, with colons between them. A limit that cannot be read is passed over,
and so is an unknown category. A limit without categories holds for all of them, unless some were
listed and none is known. A header is one of the four changes of a table, which are data as well
(`Change`).
-/

namespace Courier.RateLimits

/-- The nonblank pieces of a text between separators, without the blanks around them. -/
def pieces (separator : Char) (s : List Char) : List (List Char) :=
  ((Text.fields separator s).map Text.trim).filter (· ≠ [])

/-- The part of a limit that lists categories, if there is one. -/
def categoryField (entry : List Char) : Option (List Char) := (Text.fields ':' entry)[1]?

/-- The names that a limit lists. -/
def names (entry : List Char) : List String :=
  (pieces ';' ((categoryField entry).getD [])).map String.ofList

/-- The known categories that a limit lists. -/
def known (entry : List Char) : List Category := (names entry).filterMap Category.ofName?

/-- The listed names that no category bears. -/
def unknown (entry : List Char) : List String :=
  (names entry).filter fun s => (Category.ofName? s).isNone

/-- Whether a limit lists anything in place of its categories. -/
def listsAny (entry : List Char) : Bool :=
  (categoryField entry).any fun s => Text.trim s ≠ []

/-- The seconds of a limit. -/
def entrySeconds (entry : List Char) : Option Nat :=
  (Text.fields ':' entry).head?.bind Seconds.nanos?

/-- Apply one limit of a header. -/
def applyEntry (limits : RateLimits) (now : Instant) (entry : List Char) :
    RateLimits × List Notice :=
  match entrySeconds entry with
  | none => (limits, [.limitMalformed (String.ofList entry)])
  | some nanos =>
    let skipped := (unknown entry).map fun s => .limitUnknown (Category.unknownMessage s)
    if listsAny entry ∧ known entry = [] then (limits, skipped)
    else
      let (limits, applied) := limits.limit now (known entry) nanos
      (limits, skipped ++ applied)

/-- Apply limits one after the other. -/
def applyEntries (limits : RateLimits) (now : Instant) : List (List Char) →
    RateLimits × List Notice
  | [] => (limits, [])
  | entry :: more =>
    let (limits, first) := limits.applyEntry now entry
    let (limits, rest) := applyEntries limits now more
    (limits, first ++ rest)

/-- Apply a header. -/
def applyHeader (limits : RateLimits) (now : Instant) (header : String) :
    RateLimits × List Notice :=
  limits.applyEntries now (pieces ',' header.toList)

/-! ## Changes of the limits -/

/-- A change of a table of limits. -/
inductive Change where
  | limit (categories : List Category) (nanos : Nat)
  | retryAfter (value : Option String)
  | header (value : String)
  | purge
  deriving DecidableEq, Repr

/-- Make a change, and say what is logged. -/
def change (limits : RateLimits) (now : Instant) : Change → RateLimits × List Notice
  | .limit categories nanos => limits.limit now categories nanos
  | .retryAfter value => limits.retryAfter now value
  | .header value => limits.applyHeader now value
  | .purge => (limits.purge now, [])

/-- The table after changes that are made at given readings of the clock, the first one first. -/
def changeAll (limits : RateLimits) (changes : List (Instant × Change)) : RateLimits :=
  changes.foldl (fun limits c => (limits.change c.1 c.2).1) limits

theorem changeAll_append (limits : RateLimits) (first second : List (Instant × Change)) :
    limits.changeAll (first ++ second) = (limits.changeAll first).changeAll second :=
  List.foldl_append

end Courier.RateLimits
