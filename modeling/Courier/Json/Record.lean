import Courier.Json.Basic

/-!
# Records in JSON

A record is an object whose members have known names, or an array of its fields in their order.
`Json.record?` gives the fields that are present; `Json.named?_cons` reads the members of an object
one by one.
-/

namespace Courier.Json

/-- The members of an object whose names are known, with their names. No known name may occur
twice. A member of another name is passed over where `extra` allows it, if it is well formed. -/
def named? (known : List String) (extra : Bool) : List (Bytes × Json) → Option (List (String × Json))
  | [] => some []
  | (raw, value) :: more =>
    match text? raw with
    | none => none
    | some name =>
      match named? known extra more with
      | none => none
      | some fields =>
        if name ∈ known then
          if (fields.lookup name).isSome then none else some ((name, value) :: fields)
        else if extra ∧ isPlainTree value then some fields
        else none

/-- The fields of a record that are present, with their names. -/
def record? (known : List String) (extra : Bool) : Json → Option (List (String × Json))
  | .array elements =>
    if elements.length = known.length then some (known.zip elements) else none
  | .object members => named? known extra members
  | _ => none

/-- A member of a new known name is a field. -/
theorem named?_cons {known : List String} {extra : Bool} {raw : Bytes} {name : String}
    {value : Json} {more : List (Bytes × Json)} {fields : List (String × Json)}
    (hraw : text? raw = some name) (hmem : name ∈ known)
    (hmore : named? known extra more = some fields) (hnew : fields.lookup name = none) :
    named? known extra ((raw, value) :: more) = some ((name, value) :: fields) := by
  simp [named?, hraw, hmore, hmem, hnew]

end Courier.Json
