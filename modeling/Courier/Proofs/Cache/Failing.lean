import Courier.Proofs.Cache.Writing

/-!
# When storing fails

A store makes room before it writes, and what it removed does not come back when it fails afterwards.
`contents_store_of_error` says which entries are left after a store that failed, for any directory
and any reason: all but those whose removal was logged. None is missing if there was room for another
one, or if the oldest entry could not be removed, and in no other case.
-/

namespace Courier.DiskCache

open FileSystem

variable {c : DiskCache} {fs : FileSystem} {e : Envelope} {error : StoreError}

theorem notices_evict_eq_nil_iff {entries : List Entry} :
    (c.evict fs entries).notices = [] ↔
      entries = [] ∨ ∃ x more fault, entries = x :: more ∧ fs.remove (c.pathOf x) = .error fault := by
  cases entries with
  | nil => exact iff_of_true rfl (.inl rfl)
  | cons x more =>
    cases h : fs.remove (c.pathOf x) with
    | error fault =>
      rw [evict_cons_error h]
      exact iff_of_true rfl (.inr ⟨x, more, fault, rfl, h⟩)
    | ok fs' =>
      rw [evict_cons h]
      refine iff_of_false (List.cons_ne_nil _ _) ?_
      rintro (hnil | ⟨y, rest, fault, heq, herror⟩)
      · cases hnil
      · obtain ⟨rfl, rfl⟩ := List.cons.inj heq
        rw [h] at herror
        cases herror

/-- Nothing makes room if there is room, or if the oldest entry cannot be removed. -/
theorem notices_evict_surplus_eq_nil_iff :
    (c.evict fs (c.surplus fs)).notices = [] ↔ c.count fs ≤ c.maxItems - 1 ∨
      ∃ x rest fault, c.byAge fs = x :: rest ∧ fs.remove (c.pathOf x) = .error fault := by
  rw [notices_evict_eq_nil_iff]
  unfold surplus
  by_cases hroom : c.count fs ≤ c.maxItems - 1
  · rw [Nat.sub_eq_zero_of_le hroom]
    exact iff_of_true (.inl List.take_zero) (.inl hroom)
  · obtain ⟨k, hk⟩ : ∃ k, c.count fs - (c.maxItems - 1) = k + 1 :=
      ⟨c.count fs - (c.maxItems - 1) - 1, by omega⟩
    have hlength := length_byAge c fs
    rw [hk, or_iff_right hroom]
    cases hage : c.byAge fs with
    | nil =>
      rw [hage, List.length_nil] at hlength
      omega
    | cons x rest =>
      rw [List.take_succ_cons, or_iff_right (List.cons_ne_nil _ _)]
      constructor
      · rintro ⟨y, more, fault, heq, hremove⟩
        obtain ⟨rfl, -⟩ := List.cons.inj heq
        exact ⟨x, rest, fault, rfl, hremove⟩
      · rintro ⟨y, more, fault, heq, hremove⟩
        obtain ⟨rfl, -⟩ := List.cons.inj heq
        exact ⟨x, rest.take k, fault, rfl, hremove⟩

theorem notices_of_error (h : (c.tryStore fs e).result = .error error) :
    (c.tryStore fs e).notices = (c.evict fs (c.surplus fs)).notices := by
  have absent : c.contains fs e = false := not_contains_of_ne (by rw [h]; simp)
  cases hr : (c.evict fs (c.surplus fs)).result with
  | error error' => rw [tryStore_of_evict_error absent hr]
  | ok _ =>
    cases hw : e.write? with
    | none => rw [tryStore_of_unwritable absent hr hw]
    | some bytes => rw [tryStore_of_written absent hr hw]

theorem store_of_error (h : (c.tryStore fs e).result = .error error) :
    c.store fs e = ((c.tryStore fs e).files,
      (c.tryStore fs e).notices ++ [.cachingFailed e.label error.message]) := by
  unfold store
  simp only [h]

/-- **What a failed store leaves.** Whatever the directory holds and for whatever reason an envelope
is not stored, the first entries by age, as many of those that had to make room as could be removed,
are gone, each with a line in the log, and all others hold what they held. Without an entry that could
not be removed these are all that had to make room. So the entries are what they were if and only if
there was room for another one or the oldest one could not be removed. -/
theorem contents_store_of_error (wf : fs.WellFormed)
    (failed : (c.tryStore fs e).result = .error error) :
    (∃ gone kept, c.surplus fs = gone ++ kept ∧
      (c.store fs e).2 = gone.map (fun x => .entryEvicted (c.pathOf x)) ++
        [.cachingFailed e.label error.message] ∧
      (kept = [] ∨ ∃ x rest fault, kept = x :: rest ∧ error = .evict (c.pathOf x) fault) ∧
      ∀ name content, (name, content) ∈ c.contents (c.store fs e).1 ↔
        (name, content) ∈ c.contents fs ∧ name ∉ gone.map Entry.name) ∧
    ((∀ entry, entry ∈ c.contents (c.store fs e).1 ↔ entry ∈ c.contents fs) ↔
      c.count fs ≤ c.maxItems - 1 ∨
        ∃ x rest fault, c.byAge fs = x :: rest ∧ fs.remove (c.pathOf x) = .error fault) := by
  have absent : c.contains fs e = false := not_contains_of_ne (by rw [failed]; simp)
  obtain ⟨l, hl⟩ := exists_entriesAt c fs
  obtain ⟨d, home⟩ := exists_home wf c e.key
  obtain ⟨gone, kept, hsplit, hnotices, wf', hmissing, ⟨error', herror, hf⟩ | ⟨hok, -⟩⟩ :=
    tryStore_spec wf hl home absent
  · obtain rfl : error' = error := Except.error.inj (herror.symm.trans failed)
    rw [store_of_error failed]
    have hcontents (name content) : (name, content) ∈ c.contents (c.tryStore fs e).files ↔
        (name, content) ∈ c.contents fs ∧ name ∉ gone.map Entry.name := by
      rw [mem_contents_of_confined wf wf' hl hf.confined fun he hP => ?_]
      · refine and_congr_right fun hm => not_congr ?_
        have hdraft := ne_draftAt (isEntryName_of_mem_contents hm) l d e.key
        simp only [hdraft, or_false, List.cons.injEq, and_true, List.mem_map, eq_comm]
      · obtain ⟨x, hx, heq⟩ := hP.resolve_right (ne_draftAt he l d e.key)
        rw [heq]
        exact hmissing x hx
    refine ⟨⟨gone, kept, hsplit, by rw [hnotices], hf.cause, hcontents⟩, ?_⟩
    rw [← notices_evict_surplus_eq_nil_iff, ← notices_of_error failed, hnotices,
      List.map_eq_nil_iff]
    constructor
    · -- a file that is gone was there before and is not there now
      intro hsame
      refine List.eq_nil_iff_forall_not_mem.2 fun x hx => ?_
      have hx' : x.name ∈ (c.contents fs).map Prod.fst := by
        rw [map_fst_contents]
        refine List.mem_map.2 ⟨x, mem_entries_of_mem_surplus ?_, rfl⟩
        exact hsplit ▸ List.mem_append_left _ hx
      obtain ⟨⟨name, content⟩, hm, rfl : name = x.name⟩ := List.mem_map.1 hx'
      exact ((hcontents _ _).1 ((hsame _).2 hm)).2 (List.mem_map.2 ⟨x, hx, rfl⟩)
    · rintro rfl ⟨name, content⟩
      rw [hcontents, List.map_nil, and_iff_left List.not_mem_nil]
  · rw [hok] at failed
    cases failed

/-- A cache for one envelope. -/
def singleCache : DiskCache := ⟨"/kept", 1⟩

/-- Its directory, with an entry. -/
def fullFiles : FileSystem :=
  ⟨[(["kept"], ⟨.directory, 0⟩), (["old.envelope", "kept"], ⟨.file [123, 125], 0⟩)], [], 0⟩

/-- An envelope of a time before the epoch, which cannot be written. -/
def ancientEnvelope : Envelope := ⟨"new", ⟨none, Timestamp.ofNanos? (-1)⟩, []⟩

/-- The entry is gone, and no other one took its place. -/
theorem contents_of_ancient :
    (singleCache.tryStore fullFiles ancientEnvelope).result = .error .serialize ∧
      singleCache.contents fullFiles = [("old.envelope", .file [123, 125])] ∧
      (singleCache.store fullFiles ancientEnvelope).2 =
        [.entryEvicted "/kept/old.envelope",
          .cachingFailed ancientEnvelope.label (StoreError.message .serialize)] ∧
      ¬ ∀ entry, entry ∈ singleCache.contents (singleCache.store fullFiles ancientEnvelope).1 ↔
        entry ∈ singleCache.contents fullFiles := by
  have failed : (singleCache.tryStore fullFiles ancientEnvelope).result = .error .serialize := by
    decide +kernel
  refine ⟨failed, by decide +kernel, by decide +kernel, ?_⟩
  have wf : fullFiles.WellFormed := .of_nodes (by decide +kernel)
  rw [(contents_store_of_error wf failed).2, ← notices_evict_surplus_eq_nil_iff]
  decide +kernel

end Courier.DiskCache
