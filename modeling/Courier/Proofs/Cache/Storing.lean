import Courier.Proofs.Cache.Writing
import Mathlib.Data.List.Nodup

/-!
# Making room for an envelope

The directory may hold more entries than the cache keeps, of any age, and other files and directories
besides. `store_of_wellFormed` says what storing an envelope does to it: exactly as many entries as
are too many give way, the first ones by age and name, the new one is there with what is written for
its envelope, and everything else is as it was.
-/

namespace Courier.DiskCache

open FileSystem

variable {c : DiskCache} {fs fs' : FileSystem} {l m : Location} {name key : String}
  {e : Envelope}
  {bytes : Bytes} {x : Entry} {P : Location → Prop}

/-! ## Times of entries -/

theorem modifiedAt_of_confined (hc : Confined P fs fs') (hr : c.RootAt fs l) (hn : Named name)
    (h : fs'.node? (name :: l) = fs.node? (name :: l)) :
    c.modifiedAt fs' name = c.modifiedAt fs name := by
  have hfind (m n) : fs'.find (Path.join c.root name) = .ok (m, n) ↔
      fs.find (Path.join c.root name) = .ok (m, n) := by
    refine hc.find_iff fun m hm => ?_
    obtain rfl := locate_pathOf (x := ⟨0, name⟩) hr hn hm
    exact h
  unfold modifiedAt
  cases hf : fs.find (Path.join c.root name) with
  | ok found => rw [(hfind _ _).2 hf]
  | error fault =>
    cases hf' : fs'.find (Path.join c.root name) with
    | error fault' => rfl
    | ok found =>
      rw [(hfind _ _).1 hf'] at hf
      cases hf

theorem mem_entries_iff_of_node?_eq (wf : fs.WellFormed) (wf' : fs'.WellFormed)
    (hr : c.RootAt fs l) (hc : Confined P fs fs')
    (h : fs'.node? (x.name :: l) = fs.node? (x.name :: l)) :
    x ∈ c.entries fs' ↔ x ∈ c.entries fs := by
  rw [mem_entries_iff wf' (hr.of_confined hc), mem_entries_iff wf hr, h]
  refine and_congr_right fun _ => and_congr_right fun hn => ?_
  obtain ⟨n, hn⟩ := hn
  have hnamed := (wf.placed _ n hn).named x.name List.mem_cons_self
  rw [modifiedAt_of_confined hc hr hnamed h]

/-! ## What storing does -/

/-- Only the files of some entries and the two files of a key have changed. -/
abbrev Replaces (l : Location) (key : String) (gone : List Entry) (fs fs' : FileSystem) : Prop :=
  Confined (fun m => (∃ x ∈ gone, m = x.name :: l) ∨ m = temporaryName key :: l ∨
    m = entryName key :: l) fs fs'

/-- Everything else is as it was, but for the time of the directory. -/
theorem Replaces.untouched {gone : List Entry} (h : Replaces l key gone fs fs') (hl : m ≠ l)
    (hgone : ∀ x ∈ gone, m ≠ x.name :: l) (hdraft : m ≠ temporaryName key :: l)
    (hentry : m ≠ entryName key :: l) : fs'.node? m = fs.node? m := by
  refine h.node m ?_ ?_
  · rintro (⟨x, hx, rfl⟩ | rfl | rfl)
    · exact hgone x hx rfl
    · exact hdraft rfl
    · exact hentry rfl
  · rintro m' (⟨x, -, rfl⟩ | rfl | rfl)
    all_goals exact hl

/-- Under any other name than that of the key the entries are those that are not gone. -/
theorem Replaces.mem_entries_iff_of_ne {gone : List Entry} (h : Replaces l key gone fs fs')
    (wf : fs.WellFormed) (wf' : fs'.WellFormed) (hr : c.RootAt fs l) (hu : c.Usable key)
    (hgone : ∀ x ∈ gone, fs'.node? (x.name :: l) = none) (hx : x.name ≠ entryName key) :
    x ∈ c.entries fs' ↔ x ∈ c.entries fs ∧ ∀ y ∈ gone, x.name ≠ y.name := by
  have hentry (hm : x ∈ c.entries fs') := (mem_entries_iff wf' (hr.of_confined h)).1 hm
  by_cases hg : ∃ y ∈ gone, x.name = y.name
  · obtain ⟨y, hy, heq⟩ := hg
    refine iff_of_false (fun hm => ?_) fun hm => hm.2 y hy heq
    obtain ⟨-, ⟨n, hn⟩, -⟩ := hentry hm
    rw [heq, hgone y hy] at hn
    cases hn
  · have hkept (y) (hy : y ∈ gone) : x.name ≠ y.name := fun heq => hg ⟨y, hy, heq⟩
    by_cases ht : x.name = temporaryName key
    · -- the file that is written first is no entry, before or after
      have hno := isEntryName_temporaryName hu.separator
      rw [← ht] at hno
      refine iff_of_false (fun hm => ?_) fun hm => ?_
      · rw [(hentry hm).1] at hno
        cases hno
      · rw [((mem_entries_iff wf hr).1 hm.1).1] at hno
        cases hno
    · have hsame := h.untouched (m := x.name :: l) (List.cons_ne_self _ _)
        (fun y hy heq => hkept y hy (List.cons.inj heq).1)
        (fun heq => ht (List.cons.inj heq).1) fun heq => hx (List.cons.inj heq).1
      rw [mem_entries_iff_of_node?_eq wf wf' hr h hsame]
      exact (and_iff_left hkept).symm

/-- The entries are then those that are left and the one of the key. -/
theorem Replaces.perm_entries {gone kept : List Entry} (h : Replaces l key gone fs fs')
    (wf : fs.WellFormed) (wf' : fs'.WellFormed) (hr : c.RootAt fs l) (hu : c.Usable key)
    (hentries : (c.entries fs).Perm (gone ++ kept))
    (hgone : ∀ x ∈ gone, fs'.node? (x.name :: l) = none)
    (hfresh : fs.node? (entryName key :: l) = none)
    (hnew : ∃ n, fs'.node? (entryName key :: l) = some n) :
    (c.entries fs').Perm (⟨c.modifiedAt fs' (entryName key), entryName key⟩ :: kept) := by
  have hmem {x : Entry} : x ∈ c.entries fs ↔ x ∈ gone ∨ x ∈ kept := by
    rw [hentries.mem_iff, List.mem_append]
  have hnames : ((gone ++ kept).map Entry.name).Nodup :=
    (hentries.map Entry.name).nodup_iff.1 (nodup_entries wf c)
  rw [List.map_append, List.nodup_append] at hnames
  obtain ⟨-, hkept, hapart⟩ := hnames
  have hnotmem {x : Entry} (hx : x ∈ kept) : x.name ≠ entryName key := by
    intro heq
    obtain ⟨-, ⟨n, hn⟩, -⟩ := (mem_entries_iff wf hr).1 (hmem.2 (.inr hx))
    rw [heq, hfresh] at hn
    cases hn
  refine (List.perm_ext_iff_of_nodup (List.Nodup.of_map Entry.name (nodup_entries wf' c))
    ?_).2 fun x => ?_
  · exact List.nodup_cons.2 ⟨fun hx => hnotmem hx rfl, List.Nodup.of_map Entry.name hkept⟩
  rw [List.mem_cons]
  by_cases hx : x.name = entryName key
  · rw [or_iff_left fun hk => hnotmem hk hx, mem_entries_iff wf' (hr.of_confined h), hx]
    have hentry : isEntryName (entryName key) = true := by
      rw [isEntryName_entryName hu.separator]
      exact decide_eq_true hu.nonempty
    constructor
    · rintro ⟨-, -, hmod⟩
      obtain ⟨modified, name⟩ := x
      obtain rfl : name = entryName key := hx
      exact congrArg (Entry.mk · _) hmod
    · rintro rfl
      exact ⟨hentry, hnew, rfl⟩
  · rw [or_iff_right fun heq => hx (congrArg Entry.name heq),
      h.mem_entries_iff_of_ne wf wf' hr hu hgone hx, hmem]
    constructor
    · rintro ⟨hg | hk, hleft⟩
      · exact absurd rfl (hleft x hg)
      · exact hk
    · exact fun hk => ⟨.inr hk, fun y hy heq =>
        hapart y.name (List.mem_map.2 ⟨y, hy, rfl⟩) x.name (List.mem_map.2 ⟨x, hk, rfl⟩) heq.symm⟩

/-- Some of the entries made room for another one, which was written for an envelope. -/
structure RoomMade (c : DiskCache) (l : Location) (e : Envelope) (fs fs' : FileSystem)
    (gone kept : List Entry) : Prop where
  /-- The entries were those that are gone and those that are kept, -/
  before : (c.entries fs).Perm (gone ++ kept)
  /-- in the order of time and name, -/
  ordered : (gone ++ kept).Pairwise Entry.Before
  /-- and no more are gone than have to make room. -/
  number : gone.length = c.count fs - (c.maxItems - 1)
  missing : ∀ x ∈ gone, fs'.node? (x.name :: l) = none
  /-- The entries are now the new one and those that are kept. -/
  after : (c.entries fs').Perm (⟨c.modifiedAt fs' (entryName e.key), entryName e.key⟩ :: kept)
  written : ∃ bytes time, e.write? = some bytes ∧
    fs'.node? (entryName e.key :: l) = some ⟨.file bytes, time⟩
  /-- The file that is written first is not there. -/
  draft : fs'.node? (temporaryName e.key :: l) = none
  /-- Nothing else changed but the time of the directory. -/
  untouched : ∀ m, m ≠ l → (∀ x ∈ gone, m ≠ x.name :: l) → m ≠ temporaryName e.key :: l →
    m ≠ entryName e.key :: l → fs'.node? m = fs.node? m
  directory : ∀ m, fs'.DirectoryAt m ↔ fs.DirectoryAt m

theorem store_of_contains (h : c.contains fs e = true) :
    c.store fs e = (fs, [.envelopeAlreadyCached e.label]) := by
  unfold store
  rw [tryStore_of_contains h]
  rfl

theorem store_of_ok (h : (c.tryStore fs e).result = .ok true) :
    c.store fs e = ((c.tryStore fs e).files,
      (c.tryStore fs e).notices ++ [.envelopeCached e.label]) := by
  unfold store
  simp only [h]

section

variable (wf : fs.WellFormed) (hr : c.RootAt fs l) (hu : c.Usable e.key)
  (hw : e.write? = some bytes) (absent : c.contains fs e = false)
  (draft : fs.isDirectory (c.temporaryPath e.key) = false)
  (files : ∀ x ∈ c.surplus fs, fs.isFile (c.pathOf x) = true)

include wf hr hu hw absent draft files

/-- Where nothing is in the way, an envelope is stored. -/
theorem tryStore_eq_ok : (c.tryStore fs e).result = .ok true := by
  have hentry := locate_join hr.located hr.directory hu.fits_entry
  have hdraft : fs.locate (c.temporaryPath e.key) = .ok (temporaryName e.key :: l) := by
    rw [hu.temporaryPath_eq hr.root_ne_empty]
    exact locate_join hr.located hr.directory (hu.fits_temporary hr.root_ne_empty)
  have hnamed (x) (hx : x ∈ c.surplus fs) : Named x.name :=
    named_of_mem wf hr (mem_entries_of_mem_surplus hx)
  have hnodup : ((c.surplus fs).map Entry.name).Nodup := by
    have hall := ((List.mergeSort_perm (c.entries fs) Entry.le).map Entry.name).nodup_iff.2
      (nodup_entries wf c)
    exact hall.sublist ((List.take_sublist _ _).map Entry.name)
  have hevict := evict_eq_ok hr hnamed hnodup files
  obtain ⟨gone, kept, -, hcleared, -⟩ := evict_surplus_spec wf (.inl hr)
  -- neither place was that of a directory, and no removal made it one
  have hempty := node?_eq_none_of_not_contains absent hentry (endsInSeparator_entryPath c e.key)
  have hno : ¬ fs.DirectoryAt (entryName e.key :: l) := by
    rintro ⟨time, hd⟩
    rw [hempty] at hd
    cases hd
  obtain ⟨fs', hwrite⟩ := writeEntry_eq_ok (hcleared.confined.locate_iff.2 hdraft)
    (mt (hcleared.confined.directory _).1 (not_directoryAt_of_isDirectory draft hdraft))
    (hcleared.confined.locate_iff.2 hentry) (mt (hcleared.confined.directory _).1 hno) bytes
  rw [tryStore_of_written absent hevict hw, hwrite]
  rfl

theorem roomMade_tryStore :
    ∃ gone kept, (c.tryStore fs e).notices = gone.map (fun x => .entryEvicted (c.pathOf x)) ∧
      c.RoomMade l e fs (c.tryStore fs e).files gone kept := by
  have hok := tryStore_eq_ok wf hr hu hw absent draft files
  have home := hr.home wf hu.separator
  obtain ⟨gone, rest, hsplit, hnotices, wf', hmissing, ⟨error, herror, -⟩ | ⟨-, ha⟩⟩ :=
    tryStore_spec wf (.inl hr) home absent
  · rw [hok] at herror
    cases herror
  obtain ⟨hconfined, rfl, hlocated, hwritten, hnone⟩ := ha
  rw [entryAt_of_not_mem hu.separator] at hwritten hlocated
  rw [hu.draftAt_eq] at hnone
  rw [entryAt_of_not_mem hu.separator, hu.draftAt_eq] at hconfined
  have hfresh := node?_eq_none_of_not_contains absent hlocated (endsInSeparator_entryPath c e.key)
  -- those that had to make room are the first ones
  obtain rfl : c.surplus fs = gone := hsplit.trans (List.append_nil gone)
  have hage : c.surplus fs ++ (c.byAge fs).drop (c.count fs - (c.maxItems - 1)) = c.byAge fs :=
    List.take_append_drop _ _
  have hentries : (c.entries fs).Perm
      (c.surplus fs ++ (c.byAge fs).drop (c.count fs - (c.maxItems - 1))) := by
    rw [hage]
    exact (List.mergeSort_perm _ _).symm
  obtain ⟨bytes', time, hbytes, hnode⟩ := hwritten
  refine ⟨_, (c.byAge fs).drop (c.count fs - (c.maxItems - 1)), hnotices, ?_⟩
  constructor
  case before => exact hentries
  case ordered =>
    rw [hage]
    exact pairwise_byAge wf c
  case number =>
    unfold surplus
    rw [List.length_take, length_byAge]
    exact Nat.min_eq_left (Nat.sub_le _ _)
  case missing => exact hmissing
  case after =>
    exact Replaces.perm_entries hconfined wf wf' hr hu hentries hmissing hfresh ⟨_, hnode⟩
  case written => exact ⟨bytes', time, hbytes, hnode⟩
  case draft => exact hnone
  case untouched => exact fun m => Replaces.untouched hconfined
  case directory => exact hconfined.directory

end

/-- **Storing makes room for one envelope and no more.** Whatever a directory holds: an envelope
whose file is there changes nothing. Another one is stored if it can be written, its key can be the
name of a file, no directory has the name of the file that is written first, and the entries that
have to make room are files. Then exactly as many entries are gone as were too many, the first ones
by time and name; its file holds what is written for it; the file that was written first is not
there; and everything else is as it was, so that the cache holds no more than it keeps. -/
theorem store_of_wellFormed (wf : fs.WellFormed) (hr : c.RootAt fs l) (hmax : 1 ≤ c.maxItems) :
    (c.contains fs e = true → c.store fs e = (fs, [.envelopeAlreadyCached e.label])) ∧
    (c.contains fs e = false → c.Usable e.key → e.write? ≠ none →
      fs.isDirectory (c.temporaryPath e.key) = false →
      (∀ x ∈ c.surplus fs, fs.isFile (c.pathOf x) = true) →
      ∃ fs' gone kept, c.store fs e =
          (fs', gone.map (fun x => .entryEvicted (c.pathOf x)) ++ [.envelopeCached e.label]) ∧
        c.RoomMade l e fs fs' gone kept ∧
        c.count fs' = min (c.count fs) (c.maxItems - 1) + 1 ∧ c.count fs' ≤ c.maxItems) := by
  refine ⟨store_of_contains, fun absent hu hwritten draft files => ?_⟩
  obtain ⟨bytes, hw⟩ := Option.ne_none_iff_exists'.1 hwritten
  obtain ⟨gone, kept, hnotices, hroom⟩ := roomMade_tryStore wf hr hu hw absent draft files
  have hok := tryStore_eq_ok wf hr hu hw absent draft files
  have hbefore := hroom.before.length_eq
  have hafter := hroom.after.length_eq
  have hnumber := hroom.number
  rw [List.length_append] at hbefore
  rw [List.length_cons] at hafter
  refine ⟨_, gone, kept, by rw [store_of_ok hok, hnotices], hroom, ?_, ?_⟩
  · unfold count at hnumber ⊢
    omega
  · unfold count at hnumber ⊢
    omega

/-- A directory with more entries than a cache for two keeps, two of them of one time, with a note and
with a file that was not renamed. -/
def crowdedFiles : FileSystem :=
  ⟨[(["kept"], ⟨.directory, 0⟩), (["second.envelope", "kept"], ⟨.file [], 5⟩),
    (["first.envelope", "kept"], ⟨.file [], 5⟩), (["third.envelope", "kept"], ⟨.file [], 9⟩),
    (["note", "kept"], ⟨.file [1], 3⟩), (["new.tmp", "kept"], ⟨.file [2], 4⟩)], [], 10⟩

def newEnvelope : Envelope := ⟨"new", ⟨none, none⟩, []⟩

/-- The first two give way to the new one. -/
theorem store_crowdedFiles :
    ∃ fs' gone kept, store ⟨"/kept", 2⟩ crowdedFiles newEnvelope =
        (fs', gone.map (fun x => .entryEvicted (pathOf ⟨"/kept", 2⟩ x)) ++
          [.envelopeCached newEnvelope.label]) ∧
      RoomMade ⟨"/kept", 2⟩ ["kept"] newEnvelope crowdedFiles fs' gone kept ∧
      gone.map Entry.name = ["first.envelope", "second.envelope"] ∧
      count ⟨"/kept", 2⟩ fs' = 2 := by
  have wf : crowdedFiles.WellFormed := .of_nodes (by decide +kernel)
  have hr : RootAt ⟨"/kept", 2⟩ crowdedFiles ["kept"] := ⟨by decide +kernel, by decide +kernel⟩
  have files : ∀ x ∈ entries ⟨"/kept", 2⟩ crowdedFiles,
      crowdedFiles.isFile (pathOf ⟨"/kept", 2⟩ x) = true := by decide +kernel
  obtain ⟨fs', gone, kept, hstore, hroom, hcount, -⟩ :=
    (store_of_wellFormed wf hr (by decide)).2 (by decide +kernel : contains _ _ newEnvelope = false)
      (by decide +kernel) (by decide +kernel) (by decide +kernel)
      fun x hx => files x (mem_entries_of_mem_surplus hx)
  have hcrowded : count ⟨"/kept", 2⟩ crowdedFiles = 3 := by decide +kernel
  have hnumber := hroom.number
  rw [hcrowded] at hnumber hcount
  -- there is only one way to put the entries in order
  have hall : gone ++ kept =
      [⟨5, "first.envelope"⟩, ⟨5, "second.envelope"⟩, ⟨9, "third.envelope"⟩] := by
    have hperm := hroom.before.symm.trans (by decide +kernel : List.Perm _
      [⟨5, "first.envelope"⟩, ⟨5, "second.envelope"⟩, ⟨9, "third.envelope"⟩])
    exact List.Perm.eq_of_pairwise (fun a b _ _ hab hba => absurd hba hab.asymm) hroom.ordered
      (by decide +kernel) hperm
  have hgone : gone = [⟨5, "first.envelope"⟩, ⟨5, "second.envelope"⟩] := by
    have htake : (gone ++ kept).take gone.length = gone := List.take_left
    rw [hnumber, hall] at htake
    exact htake.symm
  exact ⟨fs', gone, kept, hstore, hroom, by rw [hgone]; rfl, hcount⟩

end Courier.DiskCache
