import Courier.Text.Blank
import Mathlib.Data.List.DropRight

/-!
# Trimmed texts

Trimming takes characters away and adds none (`trim_subset`), and trimming a trimmed text takes
nothing more away (`trim_trim`). The blanks at the end are those that `List.rdropWhile` drops. What is
taken away are blanks around the text (`exists_eq_append_trim`), and more of them around it make no
difference (`trim_append_append`).
-/

namespace Courier.Text

variable {l r : List Char}

theorem trim_subset (s : List Char) : trim s ⊆ s :=
  fun _ h => (List.dropWhile_suffix isBlank).subset ((List.rdropWhile_prefix isBlank _).subset h)

theorem trimEnd_trim (s : List Char) : trimEnd (trim s) = trim s :=
  List.rdropWhile_idempotent ..

theorem trimStart_trim (s : List Char) : trimStart (trim s) = trim s := by
  have hs : ∀ h : 0 < (trimStart s).length, ¬ isBlank (trimStart s)[0] = true :=
    List.dropWhile_eq_self_iff.1 (List.dropWhile_idempotent ..)
  refine List.dropWhile_eq_self_iff.2 fun h => ?_
  have hp : trim s <+: trimStart s := List.rdropWhile_prefix isBlank _
  rw [hp.getElem h]
  exact hs (Nat.lt_of_lt_of_le h hp.length_le)

theorem trim_trim (s : List Char) : trim (trim s) = trim s := by
  rw [trim, trimStart_trim, trimEnd_trim]

theorem trim_eq_self {s : List Char} (h : ∀ c ∈ s, isBlank c = false) : trim s = s := by
  have keeps {t : List Char} (ht : ∀ c ∈ t, isBlank c = false) : t.dropWhile isBlank = t := by
    cases t with
    | nil => rfl
    | cons c t => exact List.dropWhile_cons_of_neg (by rw [ht c List.mem_cons_self]; decide)
  have hreverse : ∀ c ∈ s.reverse, isBlank c = false := fun c hc => h c (List.mem_reverse.1 hc)
  rw [trim, trimStart, keeps h, trimEnd, keeps hreverse, List.reverse_reverse]

/-! ## Blanks around a text -/

/-- Whether a text has only blanks. -/
def IsBlank (s : List Char) : Prop := ∀ c ∈ s, isBlank c = true

-- The characters of the text are checked, and not all characters for being in it.
instance (s : List Char) : Decidable (IsBlank s) :=
  decidable_of_iff (s.all isBlank = true) List.all_eq_true

theorem trimStart_append (hl : IsBlank l) (s : List Char) : trimStart (l ++ s) = trimStart s :=
  List.dropWhile_append_of_pos hl

theorem trimEnd_append (s : List Char) (hr : IsBlank r) : trimEnd (s ++ r) = trimEnd s := by
  have hr' : ∀ c ∈ r.reverse, isBlank c = true := fun c hc => hr c (List.mem_reverse.1 hc)
  rw [trimEnd, List.reverse_append, List.dropWhile_append_of_pos hr']
  rfl

/-- Blanks around a text are trimmed away. -/
theorem trim_append_append (hl : IsBlank l) (s : List Char) (hr : IsBlank r) :
    trim (l ++ s ++ r) = trim s := by
  rw [List.append_assoc, trim, trimStart_append hl]
  by_cases hs : IsBlank s
  · have hsr : IsBlank (s ++ r) := List.forall_mem_append.2 ⟨hs, hr⟩
    rw [trimStart, dropWhile_isBlank_eq_nil.2 hsr, trim_eq_nil_iff.2 hs]
    rfl
  · have hne : s.dropWhile isBlank ≠ [] := fun h => hs (dropWhile_isBlank_eq_nil.1 h)
    have hsplit : trimStart (s ++ r) = trimStart s ++ r := by
      unfold trimStart
      rw [List.dropWhile_append, if_neg (by simpa using hne)]
    rw [hsplit, trimEnd_append _ hr]
    rfl

/-- A text is its trimmed form with blanks around it. -/
theorem exists_eq_append_trim (s : List Char) :
    ∃ l r, IsBlank l ∧ IsBlank r ∧ s = l ++ trim s ++ r := by
  refine ⟨s.takeWhile isBlank, (trimStart s).rtakeWhile isBlank, ?_, ?_, ?_⟩
  · exact fun c hc => List.mem_takeWhile_imp hc
  · exact fun c hc => List.mem_rtakeWhile_imp hc
  · have hend : trim s ++ (trimStart s).rtakeWhile isBlank = trimStart s :=
      List.rdropWhile_append_rtakeWhile ..
    rw [List.append_assoc, hend]
    exact List.takeWhile_append_dropWhile.symm

end Courier.Text
