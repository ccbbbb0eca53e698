import Courier.Proofs.RateLimit.Entries

/-!
# Blanks in a list of categories

`Spaced` says that pieces were cut from a list to which blanks were added: around its pieces, or as
pieces of their own. `applyHeader_of_spaced` says that this never changes which names an entry lists,
and that it changes what the entry does in one case only: a list that was blank gets a semicolon.
Then an entry that limited everything limits nothing.
-/

namespace Courier.RateLimits

open Text

/-- The second pieces are the first ones with blanks around them, and blank pieces in between. -/
inductive Spaced : List (List Char) → List (List Char) → Prop where
  | nil : Spaced [] []
  | blank {b : List Char} {ps qs : List (List Char)} (hb : IsBlank b) (h : Spaced ps qs) :
      Spaced ps (b :: qs)
  | piece {p l r : List Char} {ps qs : List (List Char)} (hl : IsBlank l) (hr : IsBlank r)
      (h : Spaced ps qs) : Spaced (p :: ps) ((l ++ p ++ r) :: qs)

variable {limits : RateLimits} {now : Instant} {c : Category} {field field' : List Char}
  {ps qs : List (List Char)}

namespace Spaced

theorem length_le (h : Spaced ps qs) : ps.length ≤ qs.length := by
  induction h with
  | nil => exact Nat.le_refl 0
  | blank _ _ ih => exact Nat.le_succ_of_le ih
  | piece _ _ _ ih => exact Nat.succ_le_succ ih

theorem filter_trim (h : Spaced ps qs) :
    (qs.map trim).filter (· ≠ []) = (ps.map trim).filter (· ≠ []) := by
  induction h with
  | nil => rfl
  | blank hb _ ih =>
    rw [List.map_cons, trim_eq_nil_iff.2 hb, ← ih]
    exact List.filter_cons_of_neg (by simp)
  | piece hl hr _ ih =>
    rw [List.map_cons, List.map_cons, trim_append_append hl _ hr, List.filter_cons,
      List.filter_cons, ih]

end Spaced

/-! ## Lists -/

theorem isBlank_iff : IsBlank field ↔ pieces ';' field = [] ∧ ';' ∉ field := by
  refine ⟨fun h => ⟨pieces_of_isBlank h, not_mem_of_isBlank rfl h⟩, fun ⟨hnone, hmem⟩ => ?_⟩
  by_contra h
  have hne : trim field ≠ [] := mt trim_eq_nil_iff.1 h
  have hpiece : trim field ∈ pieces ';' field := by
    rw [mem_pieces, fields_of_not_mem hmem]
    exact ⟨hne, field, List.mem_singleton_self field, rfl⟩
  rw [hnone] at hpiece
  cases hpiece

/-- A field stands for the categories that its names name, and for the default one if it is blank. -/
theorem lists_iff :
    Lists field c ↔ c.name.toList ∈ pieces ';' field ∨ IsBlank field ∧ c = .default := by
  by_cases h : IsBlank field
  · rw [Lists, if_pos h, pieces_of_isBlank h]
    simp [h]
  · rw [lists_iff_of_not_isBlank h, mem_listed]
    simp [h]

theorem not_lists_of_spaced (h : Spaced (fields ';' field) (fields ';' field'))
    (hblank : IsBlank field) (hmem : ';' ∈ field') (c : Category) : ¬ Lists field' c := by
  have hpieces : pieces ';' field' = [] := h.filter_trim.trans (pieces_of_isBlank hblank)
  rw [lists_iff, hpieces, isBlank_iff]
  simp [hmem]

/-- Any other list stands for the same categories when blanks are added. -/
theorem lists_iff_of_spaced (h : Spaced (fields ';' field) (fields ';' field'))
    (hsame : ¬ (IsBlank field ∧ ';' ∈ field')) (c : Category) :
    Lists field' c ↔ Lists field c := by
  have hpieces : pieces ';' field' = pieces ';' field := h.filter_trim
  have hmem (hmem' : ';' ∉ field') : ';' ∉ field := by
    intro hmem
    have hlength := h.length_le
    rw [fields_of_not_mem hmem'] at hlength
    exact absurd (one_lt_length_fields hmem) (Nat.not_lt.2 hlength)
  have hblank : IsBlank field' ↔ IsBlank field := by
    constructor
    · intro h'
      obtain ⟨hnone, hmem'⟩ := isBlank_iff.1 h'
      exact isBlank_iff.2 ⟨hpieces ▸ hnone, hmem hmem'⟩
    · intro hb
      have hmem' : ';' ∉ field' := fun hmem' => hsame ⟨hb, hmem'⟩
      exact isBlank_iff.2 ⟨hpieces.trans (pieces_of_isBlank hb), hmem'⟩
  rw [lists_iff, lists_iff, hpieces, hblank]

/-! ## Entries -/

theorem max_some_eq_left_iff {old : Option Instant} {d : Instant} :
    max old (some d) = old ↔ some d ≤ old := by
  cases old with
  | none => simp
  | some old =>
    rw [Option.max_some_some, Option.some_le_some, Option.some.injEq]
    exact ⟨fun h => h ▸ Nat.le_max_right old d, Nat.max_eq_left⟩

section Entry

variable {entry other : String} {first first' : List Char} {rest rest' : List (List Char)}

theorem fst_applyHeader_of_not_lists (hentry : ',' ∉ entry.toList)
    (h : fields ':' entry.toList = first :: rest) (hnot : ∀ c, ¬ Lists (rest.head?.getD []) c) :
    (limits.applyHeader now entry).1 = limits := by
  cases hn : Seconds.nanos? first with
  | none => exact fst_applyHeader_of_entryLimit?_eq_none hentry (entryLimit?_of_nanos? h hn)
  | some n =>
    refine eq_of_deadline fun c => ?_
    rw [deadline_applyHeader_of_not_mem hentry h hn, if_neg (hnot c)]

/-- A blank list changes nothing exactly if there are no seconds or the default category is limited
for longer. -/
theorem fst_applyHeader_eq_self_iff (hentry : ',' ∉ entry.toList)
    (h : fields ':' entry.toList = first :: rest) (hblank : IsBlank (rest.head?.getD [])) :
    (limits.applyHeader now entry).1 = limits ↔
      ∀ n, Seconds.nanos? first = some n → some (now + n) ≤ limits.deadline .default := by
  constructor
  · intro heq n hn
    have hdefault : (limits.applyHeader now entry).1.deadline .default = _ :=
      deadline_applyHeader_of_not_mem hentry h hn .default
    rw [heq, if_pos (lists_iff.2 (.inr ⟨hblank, rfl⟩))] at hdefault
    exact max_some_eq_left_iff.1 hdefault.symm
  · intro hle
    cases hn : Seconds.nanos? first with
    | none => exact fst_applyHeader_of_entryLimit?_eq_none hentry (entryLimit?_of_nanos? h hn)
    | some n =>
      refine eq_of_deadline fun c => ?_
      rw [deadline_applyHeader_of_not_mem hentry h hn]
      split
      next hc =>
        rw [Lists, if_pos hblank] at hc
        exact hc ▸ max_some_eq_left_iff.2 (hle n hn)
      next => rfl

/-- **Blanks in a list of categories.** Take an entry, and one with the same seconds whose list has
blanks added around its pieces and as further pieces. They list the same names. The second one does
what the first one does, unless the first list was blank and the second one has a semicolon: then it
does nothing, which makes a difference exactly if there are seconds and the default category is not
limited for longer. An entry limits the categories that are named in its list, and the default one
only if it is named or the list is blank. -/
theorem applyHeader_of_spaced (hentry : ',' ∉ entry.toList) (hother : ',' ∉ other.toList)
    (h : fields ':' entry.toList = first :: rest) (h' : fields ':' other.toList = first' :: rest')
    (hseconds : Seconds.nanos? first' = Seconds.nanos? first)
    (hspaced : Spaced (fields ';' (rest.head?.getD [])) (fields ';' (rest'.head?.getD [])))
    (limits : RateLimits) (now : Instant) :
    let list := rest.head?.getD []
    let spaced := rest'.head?.getD []
    pieces ';' spaced = pieces ';' list ∧
    (limits.applyHeader now other).1 =
      (if IsBlank list ∧ ';' ∈ spaced then limits else (limits.applyHeader now entry).1) ∧
    ((limits.applyHeader now other).1 ≠ (limits.applyHeader now entry).1 ↔
      (IsBlank list ∧ ';' ∈ spaced) ∧
        ∃ n, Seconds.nanos? first = some n ∧ ¬ some (now + n) ≤ limits.deadline .default) ∧
    ∀ n, Seconds.nanos? first = some n → ∀ c,
      (limits.applyHeader now other).1.deadline c =
        if c.name.toList ∈ pieces ';' spaced ∨ IsBlank spaced ∧ c = .default then
          max (limits.deadline c) (some (now + n))
        else limits.deadline c := by
  intro list spaced
  have htable : (limits.applyHeader now other).1 =
      if IsBlank list ∧ ';' ∈ spaced then limits else (limits.applyHeader now entry).1 := by
    split
    next hbreaks =>
      exact fst_applyHeader_of_not_lists hother h' (not_lists_of_spaced hspaced hbreaks.1 hbreaks.2)
    next hsame =>
      exact fst_applyHeader_congr hentry hother h h' hseconds (lists_iff_of_spaced hspaced hsame)
  refine ⟨hspaced.filter_trim, htable, ?_, fun n hn c => ?_⟩
  · rw [htable]
    split
    next hbreaks =>
      rw [ne_comm, ne_eq, fst_applyHeader_eq_self_iff hentry h hbreaks.1, and_iff_right hbreaks]
      simp only [not_forall, exists_prop]
    next hsame => exact iff_of_false (fun hne => hne rfl) (fun hb => hsame hb.1)
  · rw [deadline_applyHeader_of_not_mem hother h' (hseconds.trans hn)]
    simp only [lists_iff]
    rfl

end Entry

/-- A minute for everything, and the same with a semicolon in the list, which limits nothing. -/
theorem applyHeader_semicolon :
    (empty.applyHeader 0 "60:").1.deadline .default = some (60 * nanosPerSecond) ∧
      (empty.applyHeader 0 "60:;").1.deadline .default = none ∧
      (empty.applyHeader 0 "60:;").1 ≠ (empty.applyHeader 0 "60:").1 := by
  have hspaced : Spaced (fields ';' []) (fields ';' [';']) :=
    .piece (l := []) (r := []) (by decide) (by decide) (.blank (by decide) .nil)
  have hentry : fields ':' "60:".toList = ['6', '0'] :: [[]] := by decide
  have hother : fields ':' "60:;".toList = ['6', '0'] :: [[';']] := by decide
  obtain ⟨-, -, hne, hdeadline⟩ :=
    applyHeader_of_spaced (by decide) (by decide) hentry hother rfl hspaced empty 0
  have hn : Seconds.nanos? ['6', '0'] = some (60 * nanosPerSecond) := by decide
  refine ⟨by decide, ?_, hne.2 ⟨by decide, _, hn, Option.not_some_le_none⟩⟩
  exact (hdeadline _ hn .default).trans (by decide)

end Courier.RateLimits
