import Courier.Proofs.Text.Trim
import Courier.RateLimit.Header

/-!
# The log of limits

The table of limits keeps one deadline for a category, and forgets deadlines that have passed. The log
keeps every limit that was ever applied. `isLimited_iff_log` says that both give the same answers: a
category is held back exactly if the log has a limit that covers it and is not over. So neither the
order of changes matters, nor whether the table was purged, and no change ends a limit early.
-/

namespace Courier.RateLimits

variable {limits : RateLimits} {t now : Instant} {c : Category}

/-! ## Limits -/

/-- A limit that was applied: when, for how long, and to which categories. -/
structure Limit where
  start : Instant
  nanos : Nat
  categories : List Category
  deriving DecidableEq, Repr

namespace Limit

/-- When the limit is over. None is longer than a day. -/
def deadline (l : Limit) : Instant := l.start + min l.nanos Seconds.dayNanos

/-- Whether a limit holds items of a category back: it is for all categories, for this one, or for the
default one. -/
def Covers (l : Limit) (c : Category) : Prop :=
  l.categories = [] ∨ c ∈ l.categories ∨ .default ∈ l.categories

/-- Whether a limit is one on the category itself. A limit for all categories is one on the default
one. -/
def IsOn (l : Limit) (c : Category) : Prop :=
  c ∈ l.categories ∨ l.categories = [] ∧ c = .default

instance (l : Limit) (c : Category) : Decidable (l.Covers c) :=
  inferInstanceAs (Decidable (_ ∨ _ ∨ _))

instance (l : Limit) (c : Category) : Decidable (l.IsOn c) :=
  inferInstanceAs (Decidable (_ ∨ _ ∧ _))

theorem isOn_iff {l : Limit} {c : Category} : l.IsOn c ↔ c ∈ targets l.categories := by
  unfold IsOn targets
  split
  next h => simp [h]
  next h => simp [h]

theorem covers_iff {l : Limit} {c : Category} : l.Covers c ↔ l.IsOn c ∨ l.IsOn .default := by
  unfold Covers IsOn
  constructor
  · rintro (h | h | h)
    · exact .inr (.inr ⟨h, rfl⟩)
    · exact .inl (.inl h)
    · exact .inr (.inl h)
  · rintro ((h | ⟨h, -⟩) | (h | ⟨h, -⟩))
    · exact .inr (.inl h)
    · exact .inl h
    · exact .inr (.inr h)
    · exact .inl h

end Limit

/-! ## The log -/

/-- The limit that an entry of a header asks for. One that cannot be read asks for none, and neither
does one that lists categories of which none is known. -/
def entryLimit? (now : Instant) (entry : List Char) : Option Limit :=
  (entrySeconds entry).bind fun nanos =>
    if listsAny entry ∧ known entry = [] then none else some ⟨now, nanos, known entry⟩

/-- The limits that a change applies, in their order. -/
def applied (now : Instant) : Change → List Limit
  | .limit categories nanos => [⟨now, nanos, categories⟩]
  | .retryAfter value =>
    [⟨now, (value.bind fun s => Seconds.nanos? s.toList).getD standardNanos, []⟩]
  | .header value => (pieces ',' value.toList).filterMap (entryLimit? now)
  | .purge => []

/-- All limits that changes applied, the first one first. -/
def log (changes : List (Instant × Change)) : List Limit :=
  changes.flatMap fun x => applied x.1 x.2

/-- Apply a limit to a table. -/
def apply (limits : RateLimits) (l : Limit) : RateLimits :=
  (limits.limit l.start l.categories l.nanos).1

theorem fst_applyEntry (limits : RateLimits) (now : Instant) (entry : List Char) :
    (limits.applyEntry now entry).1 = (entryLimit? now entry).toList.foldl apply limits := by
  unfold applyEntry entryLimit?
  cases entrySeconds entry with
  | none => rfl
  | some nanos =>
    rw [Option.bind_some]
    dsimp only
    split <;> rfl

theorem fst_applyEntries (limits : RateLimits) (now : Instant) (entries : List (List Char)) :
    (limits.applyEntries now entries).1 =
      (entries.filterMap (entryLimit? now)).foldl apply limits := by
  induction entries generalizing limits with
  | nil => rfl
  | cons entry more ih =>
    show (applyEntries (limits.applyEntry now entry).1 now more).1 = _
    rw [ih, fst_applyEntry]
    cases h : entryLimit? now entry with
    | none => rw [List.filterMap_cons_none h]; rfl
    | some l => rw [List.filterMap_cons_some h]; rfl

theorem fst_change (limits : RateLimits) (now : Instant) (change : Change) :
    (limits.change now change).1 =
      if change = .purge then limits.purge now else (applied now change).foldl apply limits := by
  cases change with
  | limit categories nanos => rfl
  | retryAfter value => rfl
  | header value => exact fst_applyEntries limits now _
  | purge => rfl

/-! ## Deadlines ahead -/

theorem isActive_iff : limits.isActive t c = true ↔ ∃ d, limits.deadline c = some d ∧ t < d := by
  unfold isActive
  cases limits.deadline c <;> simp

theorem lt_later {old : Option Instant} {d : Instant} :
    t < later old d ↔ (∃ d', old = some d' ∧ t < d') ∨ t < d := by
  cases old with
  | none => simp [later]
  | some d' =>
    simp only [later, Option.some.injEq, exists_eq_left']
    split
    next h => exact (or_iff_right_of_imp fun ht => Nat.lt_trans ht h).symm
    next h => exact (or_iff_left_of_imp fun ht => Nat.lt_of_lt_of_le ht (Nat.le_of_not_lt h)).symm

theorem isActive_raise {category : Category} {deadline : Instant} :
    (limits.raise category deadline).isActive t c = true ↔
      limits.isActive t c = true ∨ c = category ∧ t < deadline := by
  rw [isActive_iff, isActive_iff, deadline_raise]
  by_cases h : c = category
  · simp only [h, if_true, Option.some.injEq, exists_eq_left', true_and]
    exact lt_later
  · simp [h]

theorem isActive_raiseAll {categories : List Category} {deadline : Instant} :
    (limits.raiseAll categories deadline).isActive t c = true ↔
      limits.isActive t c = true ∨ c ∈ categories ∧ t < deadline := by
  induction categories generalizing limits with
  | nil => simp [raiseAll]
  | cons category more ih =>
    show ((limits.raise category deadline).raiseAll more deadline).isActive t c = true ↔ _
    rw [ih, isActive_raise, List.mem_cons, or_and_right, or_assoc]

/-- A limit puts a deadline ahead until it is over, and takes none away. -/
theorem isActive_apply {l : Limit} :
    (limits.apply l).isActive t c = true ↔
      limits.isActive t c = true ∨ l.IsOn c ∧ t < l.deadline := by
  rw [Limit.isOn_iff]
  exact isActive_raiseAll

theorem isActive_foldl_apply {ls : List Limit} :
    (ls.foldl apply limits).isActive t c = true ↔
      limits.isActive t c = true ∨ ∃ l ∈ ls, l.IsOn c ∧ t < l.deadline := by
  induction ls generalizing limits with
  | nil => simp
  | cons l more ih =>
    rw [List.foldl_cons, ih, isActive_apply, or_assoc]
    simp only [List.mem_cons, or_and_right, exists_or, exists_eq_left]

theorem isActive_purge (h : now ≤ t) : (limits.purge now).isActive t c = limits.isActive t c := by
  rw [Bool.eq_iff_iff, isActive_iff, isActive_iff]
  constructor
  · rintro ⟨d, hd, ht⟩
    exact ⟨d, (Option.filter_eq_some_iff.1 hd).1, ht⟩
  · rintro ⟨d, hd, ht⟩
    exact ⟨d, Option.filter_eq_some_iff.2 ⟨hd, by simpa using Nat.lt_of_le_of_lt h ht⟩, ht⟩

/-- What one change does to the deadlines that are ahead afterwards. -/
theorem isActive_change (h : now ≤ t) (change : Change) :
    (limits.change now change).1.isActive t c = true ↔
      limits.isActive t c = true ∨ ∃ l ∈ applied now change, l.IsOn c ∧ t < l.deadline := by
  rw [fst_change]
  split
  next hp =>
    rw [isActive_purge h, hp]
    simp [applied]
  · exact isActive_foldl_apply

/-- The deadlines that are ahead after changes are those of the log. -/
theorem isActive_changeAll {changes : List (Instant × Change)} (h : ∀ x ∈ changes, x.1 ≤ t) :
    (limits.changeAll changes).isActive t c = true ↔
      limits.isActive t c = true ∨ ∃ l ∈ log changes, l.IsOn c ∧ t < l.deadline := by
  induction changes generalizing limits with
  | nil => simp [changeAll, log]
  | cons x more ih =>
    show ((limits.change x.1 x.2).1.changeAll more).isActive t c = true ↔ _
    rw [ih fun y hy => h y (List.mem_cons_of_mem _ hy), isActive_change (h x List.mem_cons_self),
      or_assoc]
    simp only [log, List.flatMap_cons, List.mem_append, or_and_right, exists_or]

/-! ## Answers -/

/-- A category is held back exactly if the log has a limit that covers it and is not over. -/
theorem isLimited_changeAll_empty {changes : List (Instant × Change)} (h : ∀ x ∈ changes, x.1 ≤ t) :
    (empty.changeAll changes).isLimited t c = true ↔
      ∃ l ∈ log changes, l.Covers c ∧ t < l.deadline := by
  have hnone (c : Category) : ¬ empty.isActive t c = true := Bool.false_ne_true
  rw [isLimited, Bool.or_eq_true, isActive_changeAll h, isActive_changeAll h,
    or_iff_right (hnone c), or_iff_right (hnone _), ← exists_or]
  simp only [Limit.covers_iff, or_and_right, and_or_left]

theorem mem_stored_purge : c ∈ (limits.purge t).stored ↔ limits.isActive t c = true := by
  rw [stored, List.mem_filter, and_iff_right (Category.mem_all c), isActive_iff,
    Option.isSome_iff_exists]
  simp [purge, Option.filter_eq_some_iff]

/-- Changes that apply the same limits give the same answers. -/
theorem isLimited_congr {changes others : List (Instant × Change)} (h : ∀ x ∈ changes, x.1 ≤ t)
    (h' : ∀ x ∈ others, x.1 ≤ t) (hl : ∀ l, l ∈ log others ↔ l ∈ log changes) :
    (empty.changeAll others).isLimited t c = (empty.changeAll changes).isLimited t c := by
  rw [Bool.eq_iff_iff, isLimited_changeAll_empty h, isLimited_changeAll_empty h']
  simp only [hl]

theorem mem_log_filter {changes : List (Instant × Change)} {l : Limit} :
    l ∈ log (changes.filter fun x => x.2 ≠ .purge) ↔ l ∈ log changes := by
  simp only [log, List.mem_flatMap, List.mem_filter, decide_eq_true_eq]
  constructor
  · rintro ⟨x, ⟨hx, -⟩, hl⟩
    exact ⟨x, hx, hl⟩
  · rintro ⟨x, hx, hl⟩
    refine ⟨x, ⟨hx, fun hp => ?_⟩, hl⟩
    rw [hp] at hl
    cases hl

/-! ## Headers -/

theorem pieces_of_mem {separator : Char} {s piece : List Char} (h : piece ∈ pieces separator s) :
    pieces separator piece = [piece] := by
  obtain ⟨hmem, hne⟩ := List.mem_filter.1 h
  obtain ⟨field, hfield, rfl⟩ := List.mem_map.1 hmem
  have hs : separator ∉ Text.trim field := fun hs =>
    Text.not_mem_of_mem_fields hfield (Text.trim_subset field hs)
  rw [pieces, Text.fields_of_not_mem hs, List.map_singleton, Text.trim_trim]
  exact List.filter_cons_of_pos hne

/-- A header is its limits, each one as a header of its own. -/
theorem fst_change_header (limits : RateLimits) (now : Instant) (value : String) :
    (limits.change now (.header value)).1 =
      limits.changeAll ((pieces ',' value.toList).map fun entry =>
        (now, .header (String.ofList entry))) := by
  have hall (entries : List (List Char)) (h : ∀ entry ∈ entries, pieces ',' entry = [entry])
      (limits : RateLimits) : (limits.applyEntries now entries).1 =
        limits.changeAll (entries.map fun entry => (now, .header (String.ofList entry))) := by
    induction entries generalizing limits with
    | nil => rfl
    | cons entry more ih =>
      have hentry : (limits.change now (.header (String.ofList entry))).1 =
          (limits.applyEntry now entry).1 := by
        show (limits.applyEntries now (pieces ',' (String.ofList entry).toList)).1 = _
        rw [String.toList_ofList, h entry List.mem_cons_self]
        rfl
      show (applyEntries (limits.applyEntry now entry).1 now more).1 =
        ((limits.change now (.header (String.ofList entry))).1).changeAll _
      rw [hentry]
      exact ih (fun e he => h e (List.mem_cons_of_mem _ he)) _
  exact hall _ (fun _ => pieces_of_mem) limits

/-! ## Whole histories -/

/-- **The table of limits keeps what the log says.** Take any changes that are made to an empty
table, and any later reading of the clock. Then a category is held back if and only if a limit was
applied that covers it and is not over, and a purge leaves exactly the categories with such a limit
of their own. So more changes never end a limit early, the order of the changes does not matter, and
neither does whether the table was purged in between. A header is its limits as headers of their
own, so the same holds if the clock goes on while it is applied. -/
theorem isLimited_iff_log {changes : List (Instant × Change)} (later : ∀ x ∈ changes, x.1 ≤ t) :
    (∀ c, (empty.changeAll changes).isLimited t c = true ↔
      ∃ l ∈ log changes, l.Covers c ∧ t < l.deadline) ∧
    (∀ c, c ∈ (empty.changeAll (changes ++ [(t, .purge)])).stored ↔
      ∃ l ∈ log changes, l.IsOn c ∧ t < l.deadline) ∧
    (∀ fewer c, fewer.Sublist changes → (empty.changeAll fewer).isLimited t c = true →
      (empty.changeAll changes).isLimited t c = true) ∧
    (∀ others c, others.Perm changes →
      (empty.changeAll others).isLimited t c = (empty.changeAll changes).isLimited t c) ∧
    (∀ c, (empty.changeAll (changes.filter fun x => x.2 ≠ .purge)).isLimited t c =
      (empty.changeAll changes).isLimited t c) ∧
    ∀ (limits : RateLimits) (now : Instant) (value : String),
      (limits.change now (.header value)).1 =
        limits.changeAll ((pieces ',' value.toList).map fun entry =>
          (now, .header (String.ofList entry))) := by
  refine ⟨fun c => isLimited_changeAll_empty later, fun c => ?_, fun fewer c hs hlimited => ?_,
    fun others c hp => ?_, fun c => ?_, fst_change_header⟩
  · rw [changeAll_append]
    show c ∈ ((empty.changeAll changes).purge t).stored ↔ _
    rw [mem_stored_purge, isActive_changeAll later, or_iff_right]
    exact Bool.false_ne_true
  · have hfewer : ∀ x ∈ fewer, x.1 ≤ t := fun x hx => later x (hs.subset hx)
    obtain ⟨l, hl, hcovers⟩ := (isLimited_changeAll_empty hfewer).1 hlimited
    obtain ⟨x, hx, hlx⟩ := List.mem_flatMap.1 hl
    exact (isLimited_changeAll_empty later).2
      ⟨l, List.mem_flatMap.2 ⟨x, hs.subset hx, hlx⟩, hcovers⟩
  · exact isLimited_congr later (fun x hx => later x (hp.subset hx))
      fun l => (hp.flatMap_right _).mem_iff
  · exact isLimited_congr later (fun x hx => later x (List.mem_of_mem_filter hx))
      fun l => mem_log_filter

/-- A limit of a minute on errors, then one of a second, a purge when the second one is over, and a
header. -/
def sampleChanges : List (Instant × Change) :=
  [(0, .limit [.error] (60 * nanosPerSecond)), (0, .limit [.error] nanosPerSecond),
    (nanosPerSecond, .purge), (2 * nanosPerSecond, .header "5:session;attachment, 1:")]

/-- Errors are held back for the whole minute and no longer, although the second limit is over. -/
theorem isLimited_sampleChanges :
    (empty.changeAll sampleChanges).isLimited (60 * nanosPerSecond - 1) .error = true ∧
      (empty.changeAll sampleChanges).isLimited (60 * nanosPerSecond) .error = false := by
  have before := @isLimited_iff_log (60 * nanosPerSecond - 1) sampleChanges (by decide)
  have after := @isLimited_iff_log (60 * nanosPerSecond) sampleChanges (by decide)
  refine ⟨(before.1 .error).2 (by decide), ?_⟩
  rw [← Bool.not_eq_true, after.1 .error]
  decide

end Courier.RateLimits
