/-!
# Fields between separators

A text is cut at every occurrence of a separator, so it always has at least one field.
`Text.fields_append` says that cutting a text that was joined by a separator gives the fields of its
two parts.
-/

namespace Courier.Text

/-- The fields of a text between the occurrences of `separator`. -/
def fields (separator : Char) : List Char → List (List Char)
  | [] => [[]]
  | c :: rest =>
    if c = separator then [] :: fields separator rest
    else match fields separator rest with
      | [] => [[c]]
      | field :: more => (c :: field) :: more

theorem fields_ne_nil (separator : Char) (s : List Char) : fields separator s ≠ [] := by
  cases s with
  | nil => simp [fields]
  | cons c rest =>
    simp only [fields]
    split
    · simp
    · split <;> simp

/-- A separator between two texts separates their fields. -/
theorem fields_append (separator : Char) (s t : List Char) :
    fields separator (s ++ separator :: t) = fields separator s ++ fields separator t := by
  induction s with
  | nil => simp [fields]
  | cons c rest ih =>
    simp only [List.cons_append, fields, ih]
    split
    · rfl
    · cases h : fields separator rest with
      | nil => exact absurd h (fields_ne_nil _ _)
      | cons field more => rfl

/-- A text without the separator is its only field. -/
theorem fields_of_not_mem {separator : Char} {s : List Char} (h : separator ∉ s) :
    fields separator s = [s] := by
  induction s with
  | nil => rfl
  | cons c rest ih =>
    simp only [List.mem_cons, not_or] at h
    simp [fields, ih h.2, Ne.symm h.1]

/-- No field holds the separator. -/
theorem not_mem_of_mem_fields {separator : Char} {s field : List Char}
    (h : field ∈ fields separator s) : separator ∉ field := by
  induction s generalizing field with
  | nil => simp_all [fields]
  | cons c rest ih =>
    simp only [fields] at h
    split at h
    · rcases List.mem_cons.1 h with rfl | h
      · simp
      · exact ih h
    · rename_i hc
      cases hf : fields separator rest with
      | nil => exact absurd hf (fields_ne_nil _ _)
      | cons first more =>
        rw [hf] at h ih
        rcases List.mem_cons.1 h with rfl | h
        · simp [Ne.symm hc, ih List.mem_cons_self]
        · exact ih (List.mem_cons_of_mem _ h)

/-- Fields hold nothing but what is in the text. -/
theorem subset_of_mem_fields {separator : Char} {s field : List Char}
    (h : field ∈ fields separator s) : field ⊆ s := by
  induction s generalizing field with
  | nil =>
    obtain rfl := List.mem_singleton.1 h
    exact List.nil_subset _
  | cons c rest ih =>
    simp only [fields] at h
    split at h
    · rcases List.mem_cons.1 h with rfl | h
      · exact List.nil_subset _
      · exact List.subset_cons_of_subset c (ih h)
    · cases hf : fields separator rest with
      | nil => exact absurd hf (fields_ne_nil _ _)
      | cons first more =>
        rw [hf] at h ih
        rcases List.mem_cons.1 h with rfl | h
        · exact List.cons_subset_cons c (ih List.mem_cons_self)
        · exact List.subset_cons_of_subset c (ih (List.mem_cons_of_mem _ h))

/-- What begins with something else than the separator has a field that is not empty. -/
theorem exists_cons_mem_fields {separator c : Char} (hc : c ≠ separator) (rest : List Char) :
    ∃ field, c :: field ∈ fields separator (c :: rest) := by
  simp only [fields, if_neg hc]
  cases hf : fields separator rest with
  | nil => exact ⟨[], List.mem_cons_self⟩
  | cons field more => exact ⟨field, List.mem_cons_self⟩

end Courier.Text
