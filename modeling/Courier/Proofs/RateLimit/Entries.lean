import Courier.Proofs.RateLimit.Log
import Courier.Proofs.Text.Fields

/-!
# The entries of a header

A header is a list of entries, and `Lists` says by the text alone which categories the second field
of an entry stands for. `applyHeader_by_entries` says what a header does to the table of limits: it
does what its entries do, in any order, and an entry raises the deadlines of the categories that its
second field stands for.
-/

namespace Courier

theorem Seconds.nanos?_trim (s : List Char) :
    Seconds.nanos? (Text.trim s) = Seconds.nanos? s := by
  unfold Seconds.nanos?
  rw [Text.trim_trim]

namespace RateLimits

variable {limits : RateLimits} {now : Instant} {c : Category} {entry field first : List Char}
  {rest : List (List Char)} {n : Nat}

/-! ## Deadlines -/

theorem eq_of_deadline {other : RateLimits} (h : ∀ c, limits.deadline c = other.deadline c) :
    limits = other :=
  congrArg RateLimits.mk (funext h)

theorem some_later (old : Option Instant) (d : Instant) :
    some (later old d) = max old (some d) := by
  cases old with
  | none => rfl
  | some old =>
    rw [Option.max_some_some, later]
    refine congrArg some ?_
    split
    next h => exact (Nat.max_eq_right (Nat.le_of_lt h)).symm
    next h => exact (Nat.max_eq_left (Nat.le_of_not_lt h)).symm

theorem deadline_raiseAll (categories : List Category) (deadline : Instant) :
    (limits.raiseAll categories deadline).deadline c =
      if c ∈ categories then max (limits.deadline c) (some deadline) else limits.deadline c := by
  induction categories generalizing limits with
  | nil => rfl
  | cons category more ih =>
    have hidem : max (max (limits.deadline c) (some deadline)) (some deadline) =
        max (limits.deadline c) (some deadline) := by
      cases limits.deadline c <;> simp
    show ((limits.raise category deadline).raiseAll more deadline).deadline c = _
    rw [ih, deadline_raise, some_later]
    by_cases hc : c = category
    · rw [if_pos hc, if_pos (List.mem_cons.2 (.inl hc)), hidem, ite_self]
    · simp only [List.mem_cons, hc, if_false, false_or]

theorem deadline_apply (l : Limit) :
    (limits.apply l).deadline c =
      if l.IsOn c then max (limits.deadline c) (some l.deadline) else limits.deadline c := by
  simp only [Limit.isOn_iff]
  exact deadline_raiseAll ..

/-- The latest deadline that limits ask for a category, if any of them is on it. -/
def latest (ls : List Limit) (c : Category) : Option Instant :=
  ((ls.filter fun l => l.IsOn c).map Limit.deadline).max?

theorem latest_cons (l : Limit) (ls : List Limit) :
    latest (l :: ls) c = if l.IsOn c then max (some l.deadline) (latest ls c) else latest ls c := by
  simp only [latest, List.filter_cons, decide_eq_true_iff]
  split
  · rw [List.map_cons, List.max?_cons]
    cases ((ls.filter fun l => l.IsOn c).map Limit.deadline).max? <;> rfl
  · rfl

theorem latest_eq_none_iff {ls : List Limit} : latest ls c = none ↔ ∀ l ∈ ls, ¬ l.IsOn c := by
  simp [latest]

/-- Limits raise a deadline to the latest one that they ask for. -/
theorem deadline_foldl_apply (ls : List Limit) (limits : RateLimits) :
    (ls.foldl apply limits).deadline c = max (limits.deadline c) (latest ls c) := by
  have hassoc (x y z : Option Instant) : max (max x y) z = max x (max y z) := by
    cases x <;> cases y <;> cases z <;> simp [Nat.max_assoc]
  induction ls generalizing limits with
  | nil => exact Option.max_none_right.symm
  | cons l more ih =>
    rw [List.foldl_cons, ih, deadline_apply, latest_cons]
    split
    · exact hassoc ..
    · rfl

theorem foldl_apply_comm (ls ls' : List Limit) (limits : RateLimits) :
    ls'.foldl apply (ls.foldl apply limits) = ls.foldl apply (ls'.foldl apply limits) := by
  have hcomm (x y z : Option Instant) : max (max x y) z = max (max x z) y := by
    cases x <;> cases y <;> cases z <;> simp [Nat.max_comm, Nat.max_left_comm]
  refine eq_of_deadline fun c => ?_
  simp only [deadline_foldl_apply]
  exact hcomm ..

/-! ## Lists of categories -/

/-- Whether the second field of an entry stands for a category. A blank one stands for the default
category. Any other one lists names between semicolons, with blanks around them. -/
def Lists (field : List Char) (c : Category) : Prop :=
  if Text.IsBlank field then c = .default
  else ∃ piece ∈ Text.fields ';' field, Text.trim piece = c.name.toList

instance : Decidable (Lists field c) :=
  inferInstanceAs (Decidable (if Text.IsBlank field then _ else _))

/-- The known categories that a field lists. -/
def listed (field : List Char) : List Category :=
  (pieces ';' field).filterMap fun piece => Category.ofName? (String.ofList piece)

theorem mem_pieces {separator : Char} {s piece : List Char} :
    piece ∈ pieces separator s ↔
      piece ≠ [] ∧ ∃ field ∈ Text.fields separator s, Text.trim field = piece := by
  rw [pieces, List.mem_filter, List.mem_map, decide_eq_true_iff, and_comm]

theorem toList_name_ne_nil (c : Category) : c.name.toList ≠ [] := by
  cases c <;> decide

theorem mem_listed : c ∈ listed field ↔ c.name.toList ∈ pieces ';' field := by
  simp only [listed, List.mem_filterMap, Category.ofName?_eq_some]
  constructor
  · rintro ⟨piece, hp, hc⟩
    rwa [hc, String.toList_ofList]
  · intro h
    exact ⟨_, h, String.ofList_toList.symm⟩

theorem listed_trim (field : List Char) : listed (Text.trim field) = listed field := by
  unfold listed pieces
  rw [Text.map_trim_fields_trim rfl]

theorem pieces_of_isBlank {separator : Char} {s : List Char} (h : Text.IsBlank s) :
    pieces separator s = [] := by
  refine List.eq_nil_iff_forall_not_mem.2 fun piece hp => ?_
  obtain ⟨hne, field, hf, rfl⟩ := mem_pieces.1 hp
  exact hne (Text.trim_eq_nil_iff.2 (Text.isBlank_of_mem_fields h hf))

theorem lists_iff_of_not_isBlank (h : ¬ Text.IsBlank field) : Lists field c ↔ c ∈ listed field := by
  rw [Lists, if_neg h, mem_listed, mem_pieces, and_iff_right (toList_name_ne_nil c)]

/-- A limit with the categories that a field lists is on those that the field stands for, unless it
lists names of which none is known. -/
theorem isOn_iff_lists {start : Instant} (h : ¬ (¬ Text.IsBlank field ∧ listed field = [])) :
    (Limit.mk start n (listed field)).IsOn c ↔ Lists field c := by
  unfold Limit.IsOn
  by_cases hblank : Text.IsBlank field
  · have hnone : listed field = [] := by
      rw [listed, pieces_of_isBlank hblank]
      rfl
    rw [Lists, if_pos hblank]
    simp [hnone]
  · have hsome : listed field ≠ [] := fun hnone => h ⟨hblank, hnone⟩
    rw [lists_iff_of_not_isBlank hblank]
    simp [hsome]

/-! ## Entries -/

/-- The limit of an entry, by its fields. -/
theorem entryLimit?_eq (h : Text.fields ':' entry = first :: rest) :
    entryLimit? now entry = (Seconds.nanos? first).bind fun n =>
      if ¬ Text.IsBlank (rest.head?.getD []) ∧ listed (rest.head?.getD []) = [] then none
      else some ⟨now, n, listed (rest.head?.getD [])⟩ := by
  have hfield : categoryField entry = rest.head? := by
    rw [categoryField, h]
    cases rest <;> rfl
  have hseconds : entrySeconds entry = Seconds.nanos? first := by
    rw [entrySeconds, h]
    rfl
  have hknown : known entry = listed (rest.head?.getD []) := by
    rw [known, names, List.filterMap_map, hfield]
    rfl
  have hany : listsAny entry = true ↔ ¬ Text.IsBlank (rest.head?.getD []) := by
    rw [listsAny, hfield]
    cases rest.head? with
    | none => simp [Text.IsBlank]
    | some field => exact decide_eq_true_iff.trans (not_congr Text.trim_eq_nil_iff)
  rw [entryLimit?, hseconds, hknown]
  simp only [hany]

/-- Blanks around an entry make no difference. -/
theorem entryLimit?_trim (now : Instant) (entry : List Char) :
    entryLimit? now (Text.trim entry) = entryLimit? now entry := by
  obtain ⟨first, rest, h⟩ := List.exists_cons_of_ne_nil (Text.fields_ne_nil ':' entry)
  obtain ⟨first', rest', h'⟩ :=
    List.exists_cons_of_ne_nil (Text.fields_ne_nil ':' (Text.trim entry))
  have hmap : (Text.fields ':' (Text.trim entry)).map Text.trim =
      (Text.fields ':' entry).map Text.trim := Text.map_trim_fields_trim rfl entry
  rw [h, h', List.map_cons, List.map_cons, List.cons.injEq] at hmap
  have hhead (fs : List (List Char)) :
      Text.trim (fs.head?.getD []) = (fs.map Text.trim).head?.getD [] := by
    cases fs <;> rfl
  have hfield : Text.trim (rest'.head?.getD []) = Text.trim (rest.head?.getD []) := by
    rw [hhead, hhead, hmap.2]
  have hseconds : Seconds.nanos? first' = Seconds.nanos? first := by
    rw [← Seconds.nanos?_trim, hmap.1, Seconds.nanos?_trim]
  have hlisted : listed (rest'.head?.getD []) = listed (rest.head?.getD []) := by
    rw [← listed_trim, hfield, listed_trim]
  have hblank : Text.IsBlank (rest'.head?.getD []) ↔ Text.IsBlank (rest.head?.getD []) := by
    unfold Text.IsBlank
    rw [← Text.trim_eq_nil_iff, hfield, Text.trim_eq_nil_iff]
  rw [entryLimit?_eq h, entryLimit?_eq h', hseconds, hlisted]
  simp only [hblank]

theorem entryLimit?_of_isBlank (h : Text.IsBlank entry) : entryLimit? now entry = none := by
  rw [← entryLimit?_trim, Text.trim_eq_nil_iff.2 h]
  rfl

/-- The limits of a header are those of the texts between its commas. -/
theorem applied_header (now : Instant) (header : String) :
    applied now (.header header) =
      (Text.fields ',' header.toList).filterMap (entryLimit? now) := by
  show (pieces ',' header.toList).filterMap (entryLimit? now) = _
  rw [pieces, List.filterMap_filter, List.filterMap_map]
  refine List.filterMap_congr fun entry _ => ?_
  show (if decide (Text.trim entry ≠ []) = true then entryLimit? now (Text.trim entry) else none) = _
  rw [entryLimit?_trim]
  split
  next => rfl
  next h =>
    have hblank : Text.trim entry = [] := by simpa using h
    exact (entryLimit?_of_isBlank (Text.trim_eq_nil_iff.1 hblank)).symm

/-- The limit of an entry ends when its seconds are over, and is on the categories that the second
field stands for. -/
theorem isOn_of_entryLimit? {l : Limit} (h : Text.fields ':' entry = first :: rest)
    (hl : entryLimit? now entry = some l) :
    ∃ n, Seconds.nanos? first = some n ∧ l.deadline = now + n ∧
      ∀ c, l.IsOn c ↔ Lists (rest.head?.getD []) c := by
  rw [entryLimit?_eq h] at hl
  obtain ⟨n, hn, hl⟩ := Option.bind_eq_some_iff.1 hl
  split at hl
  next => cases hl
  next hsome =>
    obtain rfl := Option.some.inj hl
    refine ⟨n, hn, ?_, fun c => isOn_iff_lists hsome⟩
    show now + min n Seconds.dayNanos = now + n
    rw [Nat.min_eq_left (Seconds.nanos?_le hn)]

theorem not_lists_of_entryLimit?_eq_none (h : Text.fields ':' entry = first :: rest)
    (hl : entryLimit? now entry = none) (hn : Seconds.nanos? first = some n) (c : Category) :
    ¬ Lists (rest.head?.getD []) c := by
  rw [entryLimit?_eq h, hn, Option.bind_some] at hl
  split at hl
  next hnone =>
    rw [lists_iff_of_not_isBlank hnone.1, hnone.2]
    exact List.not_mem_nil
  next => cases hl

theorem entryLimit?_of_nanos? (h : Text.fields ':' entry = first :: rest)
    (hn : Seconds.nanos? first = none) : entryLimit? now entry = none := by
  rw [entryLimit?_eq h, hn]
  rfl

/-! ## Headers -/

theorem fst_applyHeader (limits : RateLimits) (now : Instant) (header : String) :
    (limits.applyHeader now header).1 =
      ((Text.fields ',' header.toList).filterMap (entryLimit? now)).foldl apply limits := by
  rw [← applied_header]
  exact fst_change limits now (.header header)

/-- Headers with a comma between them do what the one and then the other does. -/
theorem fst_applyHeader_append (limits : RateLimits) (now : Instant) (a b : String) :
    (limits.applyHeader now (a ++ "," ++ b)).1 =
      ((limits.applyHeader now a).1.applyHeader now b).1 := by
  have hjoin : (a ++ "," ++ b).toList = a.toList ++ ',' :: b.toList := by
    rw [String.toList_append, String.toList_append, List.append_assoc]
    rfl
  simp only [fst_applyHeader, hjoin, Text.fields_append, List.filterMap_append, List.foldl_append]

theorem fst_applyHeader_comm (limits : RateLimits) (now : Instant) (a b : String) :
    ((limits.applyHeader now a).1.applyHeader now b).1 =
      ((limits.applyHeader now b).1.applyHeader now a).1 := by
  simp only [fst_applyHeader]
  exact foldl_apply_comm ..

/-- A header raises a deadline to the latest one that its entries ask for. -/
theorem deadline_applyHeader (limits : RateLimits) (now : Instant) (header : String) (c : Category) :
    (limits.applyHeader now header).1.deadline c = max (limits.deadline c)
      (latest ((Text.fields ',' header.toList).filterMap (entryLimit? now)) c) := by
  rw [fst_applyHeader, deadline_foldl_apply]

theorem deadline_le_applyHeader (limits : RateLimits) (now : Instant) (header : String)
    (c : Category) : limits.deadline c ≤ (limits.applyHeader now header).1.deadline c := by
  rw [deadline_applyHeader]
  generalize latest _ c = new
  cases limits.deadline c with
  | none => exact Option.none_le
  | some old =>
    cases new with
    | none => exact Option.some_le_some.2 (Nat.le_refl old)
    | some d => exact Option.some_le_some.2 (Nat.le_max_left old d)

theorem latest_entries_eq_none {entries : List (List Char)}
    (h : ∀ entry ∈ entries, ∀ first rest, Text.fields ':' entry = first :: rest →
      Seconds.nanos? first = none ∨ ¬ Lists (rest.head?.getD []) c) :
    latest (entries.filterMap (entryLimit? now)) c = none := by
  refine latest_eq_none_iff.2 fun l hl hon => ?_
  obtain ⟨entry, hentry, hl⟩ := List.mem_filterMap.1 hl
  obtain ⟨first, rest, hf⟩ := List.exists_cons_of_ne_nil (Text.fields_ne_nil ':' entry)
  obtain ⟨n, hn, -, hlists⟩ := isOn_of_entryLimit? hf hl
  rcases h entry hentry first rest hf with hnone | hnot
  · rw [hnone] at hn
    cases hn
  · exact hnot ((hlists c).1 hon)

theorem fst_applyHeader_of_not_mem {header : String} (h : ',' ∉ header.toList) :
    (limits.applyHeader now header).1 =
      (entryLimit? now header.toList).toList.foldl apply limits := by
  rw [fst_applyHeader, Text.fields_of_not_mem h]
  cases he : entryLimit? now header.toList with
  | none => rw [List.filterMap_cons_none he]; rfl
  | some l => rw [List.filterMap_cons_some he]; rfl

/-- What an entry that can be read does to a deadline. -/
theorem deadline_applyHeader_of_not_mem {header : String} (hcomma : ',' ∉ header.toList)
    (h : Text.fields ':' header.toList = first :: rest) (hn : Seconds.nanos? first = some n)
    (c : Category) :
    (limits.applyHeader now header).1.deadline c =
      if Lists (rest.head?.getD []) c then max (limits.deadline c) (some (now + n))
      else limits.deadline c := by
  rw [fst_applyHeader_of_not_mem hcomma]
  cases hl : entryLimit? now header.toList with
  | none =>
    rw [if_neg (not_lists_of_entryLimit?_eq_none h hl hn c)]
    rfl
  | some l =>
    obtain ⟨n', hn', hdeadline, hon⟩ := isOn_of_entryLimit? h hl
    obtain rfl := Option.some.inj (hn.symm.trans hn')
    show (limits.apply l).deadline c = _
    rw [deadline_apply, hdeadline]
    simp only [hon]

theorem fst_applyHeader_of_entryLimit?_eq_none {header : String} (h : ',' ∉ header.toList)
    (hl : entryLimit? now header.toList = none) : (limits.applyHeader now header).1 = limits := by
  rw [fst_applyHeader_of_not_mem h, hl]
  rfl

/-- Entries with the same seconds that stand for the same categories do the same. -/
theorem fst_applyHeader_congr {entry other : String} {first' : List Char} {rest' : List (List Char)}
    (hentry : ',' ∉ entry.toList) (hother : ',' ∉ other.toList)
    (h : Text.fields ':' entry.toList = first :: rest)
    (h' : Text.fields ':' other.toList = first' :: rest')
    (hseconds : Seconds.nanos? first' = Seconds.nanos? first)
    (hlists : ∀ c, Lists (rest'.head?.getD []) c ↔ Lists (rest.head?.getD []) c) :
    (limits.applyHeader now other).1 = (limits.applyHeader now entry).1 := by
  cases hn : Seconds.nanos? first with
  | none =>
    rw [fst_applyHeader_of_entryLimit?_eq_none hentry (entryLimit?_of_nanos? h hn),
      fst_applyHeader_of_entryLimit?_eq_none hother (entryLimit?_of_nanos? h' (hseconds.trans hn))]
  | some n =>
    refine eq_of_deadline fun c => ?_
    rw [deadline_applyHeader_of_not_mem hentry h hn,
      deadline_applyHeader_of_not_mem hother h' (hseconds.trans hn)]
    simp only [hlists]

/-- **Headers by their entries.** Two headers with a comma between them do what the one and then the
other does, in either order. An entry that is blank or has no seconds that can be read changes
nothing. Any other one raises the deadlines of the categories that its second field stands for, up to
the time that its seconds give, and leaves the others as they are; so two entries with the same
seconds that stand for the same categories do the same, whatever unknown names and further fields
they have. No header lowers a deadline, and none changes one that no entry of it asks for. -/
theorem applyHeader_by_entries (limits : RateLimits) (now : Instant) :
    (∀ a b : String,
      (limits.applyHeader now (a ++ "," ++ b)).1 =
        ((limits.applyHeader now a).1.applyHeader now b).1 ∧
      (limits.applyHeader now (a ++ "," ++ b)).1 =
        ((limits.applyHeader now b).1.applyHeader now a).1) ∧
    (∀ (entry : String) (first : List Char) (rest : List (List Char)), ',' ∉ entry.toList →
      Text.fields ':' entry.toList = first :: rest →
      (Text.IsBlank entry.toList ∨ Seconds.nanos? first = none →
        (limits.applyHeader now entry).1 = limits) ∧
      (∀ n, Seconds.nanos? first = some n → ∀ c,
        (limits.applyHeader now entry).1.deadline c =
          if Lists (rest.head?.getD []) c then max (limits.deadline c) (some (now + n))
          else limits.deadline c) ∧
      ∀ (other : String) (first' : List Char) (rest' : List (List Char)), ',' ∉ other.toList →
        Text.fields ':' other.toList = first' :: rest' →
        Seconds.nanos? first' = Seconds.nanos? first →
        (∀ c, Lists (rest'.head?.getD []) c ↔ Lists (rest.head?.getD []) c) →
        (limits.applyHeader now other).1 = (limits.applyHeader now entry).1) ∧
    ∀ (header : String) (c : Category),
      limits.deadline c ≤ (limits.applyHeader now header).1.deadline c ∧
      ((∀ entry ∈ Text.fields ',' header.toList, ∀ first rest,
          Text.fields ':' entry = first :: rest →
          Seconds.nanos? first = none ∨ ¬ Lists (rest.head?.getD []) c) →
        (limits.applyHeader now header).1.deadline c = limits.deadline c) := by
  refine ⟨fun a b => ⟨fst_applyHeader_append limits now a b, ?_⟩,
    fun entry first rest hentry h => ⟨?_, fun n hn c => ?_, ?_⟩,
    fun header c => ⟨?_, fun hnone => ?_⟩⟩
  · rw [fst_applyHeader_append, fst_applyHeader_comm]
  · intro hnone
    rcases hnone with hblank | hn
    · exact fst_applyHeader_of_entryLimit?_eq_none hentry (entryLimit?_of_isBlank hblank)
    · exact fst_applyHeader_of_entryLimit?_eq_none hentry (entryLimit?_of_nanos? h hn)
  · exact deadline_applyHeader_of_not_mem hentry h hn c
  · exact fun other first' rest' hother h' => fst_applyHeader_congr hentry hother h h'
  · exact deadline_le_applyHeader limits now header c
  · rw [deadline_applyHeader, latest_entries_eq_none hnone, Option.max_none_right]

/-- A minute for errors, which are limited for longer already, and for sessions, with an unknown name
and a blank piece. An entry without seconds may follow or go first. -/
theorem applyHeader_minute :
    let limits := empty.raise .error (100 * nanosPerSecond)
    let minute := " 60 : error;;Error; session :organization:reason"
    let unreadable := "soon:profile"
    (limits.applyHeader 5 (minute ++ "," ++ unreadable)).1 =
        ((limits.applyHeader 5 unreadable).1.applyHeader 5 minute).1 ∧
      (limits.applyHeader 5 minute).1.deadline .session = some (5 + 60 * nanosPerSecond) ∧
      (limits.applyHeader 5 minute).1.deadline .error = some (100 * nanosPerSecond) ∧
      (limits.applyHeader 5 unreadable).1 = limits := by
  intro limits minute unreadable
  obtain ⟨joined, entries, -⟩ := applyHeader_by_entries limits 5
  obtain ⟨-, raised, -⟩ := entries minute " 60 ".toList
    [" error;;Error; session ".toList, "organization".toList, "reason".toList] (by decide)
    (by decide)
  obtain ⟨unchanged, -⟩ :=
    entries unreadable "soon".toList ["profile".toList] (by decide) (by decide)
  have hn : Seconds.nanos? " 60 ".toList = some (60 * nanosPerSecond) := by decide
  refine ⟨(joined minute unreadable).2, ?_, ?_, unchanged (.inr (by decide))⟩
  · exact (raised _ hn .session).trans (by decide)
  · exact (raised _ hn .error).trans (by decide)

end RateLimits
end Courier
