import Courier.Proofs.Text.Trim
import Courier.Text.Fields

/-!
# Fields and blanks

Blanks around a text are around its first and its last field. So they are lost when the fields are
trimmed, and a text has the same trimmed fields as its own trimmed form (`map_trim_fields_trim`).
-/

namespace Courier.Text

variable {separator : Char} {l r : List Char}

/-- What is put before a text becomes part of the first field. -/
theorem fields_append_left (hl : separator ∉ l) (s : List Char) :
    ∃ field more, fields separator s = field :: more ∧
      fields separator (l ++ s) = (l ++ field) :: more := by
  induction l with
  | nil =>
    obtain ⟨field, more, h⟩ := List.exists_cons_of_ne_nil (fields_ne_nil separator s)
    exact ⟨field, more, h, h⟩
  | cons c l ih =>
    obtain ⟨hc, hl⟩ := not_or.1 (mt List.mem_cons.2 hl)
    obtain ⟨field, more, h, hcut⟩ := ih hl
    refine ⟨field, more, h, ?_⟩
    rw [List.cons_append, fields, if_neg (Ne.symm hc), hcut]
    rfl

/-- What is put behind a text becomes part of the last field. -/
theorem fields_append_right (hr : separator ∉ r) (s : List Char) :
    ∃ before field, fields separator s = before ++ [field] ∧
      fields separator (s ++ r) = before ++ [field ++ r] := by
  induction s with
  | nil => exact ⟨[], [], rfl, fields_of_not_mem hr⟩
  | cons c s ih =>
    obtain ⟨before, field, h, hcut⟩ := ih
    rw [List.cons_append, fields, fields, h, hcut]
    split
    · exact ⟨[] :: before, field, rfl, rfl⟩
    · cases before with
      | nil => exact ⟨[], c :: field, rfl, rfl⟩
      | cons first before => exact ⟨(c :: first) :: before, field, rfl, rfl⟩

theorem one_lt_length_fields {s : List Char} (h : separator ∈ s) :
    1 < (fields separator s).length := by
  obtain ⟨a, b, rfl, -⟩ := List.eq_append_cons_of_mem h
  have ha := List.length_pos_of_ne_nil (fields_ne_nil separator a)
  have hb := List.length_pos_of_ne_nil (fields_ne_nil separator b)
  rw [fields_append, List.length_append]
  omega

theorem not_mem_of_isBlank (hs : isBlank separator = false) (hl : IsBlank l) : separator ∉ l :=
  fun h => Bool.false_ne_true (hs.symm.trans (hl _ h))

/-- Blanks around a text are lost when its fields are trimmed. -/
theorem map_trim_fields_append (hs : isBlank separator = false) (hl : IsBlank l) (s : List Char)
    (hr : IsBlank r) :
    (fields separator (l ++ s ++ r)).map trim = (fields separator s).map trim := by
  have hleft (field : List Char) : trim (l ++ field) = trim field := by
    rw [trim, trimStart_append hl]
    rfl
  have hright (field : List Char) : trim (field ++ r) = trim field := trim_append_append
    (List.forall_mem_nil _) field hr
  obtain ⟨before, last, hls, hcut⟩ := fields_append_right (not_mem_of_isBlank hs hr) (l ++ s)
  obtain ⟨first, more, hfirst, hcut'⟩ := fields_append_left (not_mem_of_isBlank hs hl) s
  calc (fields separator (l ++ s ++ r)).map trim
      = (fields separator (l ++ s)).map trim := by
        rw [hcut, hls, List.map_append, List.map_append, List.map_singleton, List.map_singleton,
          hright]
    _ = (fields separator s).map trim := by
        rw [hcut', hfirst, List.map_cons, List.map_cons, hleft]

/-- A text has the same trimmed fields as its trimmed form. -/
theorem map_trim_fields_trim (hs : isBlank separator = false) (s : List Char) :
    (fields separator (trim s)).map trim = (fields separator s).map trim := by
  obtain ⟨l, r, hl, hr, h⟩ := exists_eq_append_trim s
  rw [← map_trim_fields_append hs hl (trim s) hr, ← h]

theorem isBlank_of_mem_fields {s field : List Char} (h : IsBlank s)
    (hf : field ∈ fields separator s) : IsBlank field :=
  fun c hc => h c (subset_of_mem_fields hf hc)

end Courier.Text
