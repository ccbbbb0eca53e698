import Courier.Proofs.Cache.Naming
import Courier.Proofs.FileSystem.WellFormed
import Mathlib.Data.String.Basic

/-!
# The entries of any directory

The directory of a cache may hold anything: entries of whatever age, other files and directories.
`RootAt c fs l` says where it is, and `DiskCache.contents` lists its entries with what they hold.
The entries have different names and are put in a strict order (`pairwise_byAge`); removing them one
after the other takes away the first ones, up to one that cannot be removed (`evict_spec`), and
nothing else.
-/

namespace Courier.DiskCache

open FileSystem

variable {c : DiskCache} {fs fs' fs'' : FileSystem} {l m d : Location} {name key : String}
  {x y : Entry} {P : Location → Prop}

/-! ## The order of entries -/

/-- One entry was modified before another one, or at the same time, and its name is smaller. -/
def Entry.Before (a b : Entry) : Prop :=
  a.modified < b.modified ∨ a.modified = b.modified ∧ a.name < b.name

instance (a b : Entry) : Decidable (a.Before b) := inferInstanceAs (Decidable (_ ∨ _))

theorem Entry.Before.asymm {a b : Entry} (h : a.Before b) : ¬ b.Before a := by
  rintro (h' | ⟨heq, h'⟩)
  · rcases h with h | ⟨heq, -⟩ <;> omega
  · rcases h with h | ⟨-, h⟩
    · omega
    · exact String.lt_asymm h h'

theorem Entry.le_iff {a b : Entry} :
    a.le b = true ↔ a.modified < b.modified ∨ a.modified = b.modified ∧ a.name ≤ b.name := by
  simp [Entry.le]

theorem Entry.le_trans {a b d : Entry} (h : a.le b = true) (h' : b.le d = true) :
    a.le d = true := by
  rw [le_iff] at h h' ⊢
  rcases h with h | ⟨h, hn⟩ <;> rcases h' with h' | ⟨h', hn'⟩
  · exact .inl (by omega)
  · exact .inl (by omega)
  · exact .inl (by omega)
  · exact .inr ⟨by omega, hn.trans hn'⟩

theorem Entry.le_total (a b : Entry) : (a.le b || b.le a) = true := by
  rw [Bool.or_eq_true, le_iff, le_iff]
  rcases Int.lt_trichotomy a.modified b.modified with h | h | h
  · exact .inl (.inl h)
  · exact (String.le_total a.name b.name).imp (fun hn => .inr ⟨h, hn⟩) fun hn => .inr ⟨h.symm, hn⟩
  · exact .inr (.inl h)

/-! ## Where the directory is -/

/-- The directory of a cache is at this location. -/
structure RootAt (c : DiskCache) (fs : FileSystem) (l : Location) : Prop where
  located : fs.locate c.root = .ok l
  directory : fs.DirectoryAt l

namespace RootAt

theorem list (h : c.RootAt fs l) : fs.list c.root = .ok (fs.children l) :=
  list_of_directory h.located h.directory

theorem root_ne_empty (h : c.RootAt fs l) : c.root ≠ "" := (of_locate h.located).2

theorem of_confined (h : c.RootAt fs l) (hc : Confined P fs fs') : c.RootAt fs' l :=
  ⟨hc.locate_iff.2 h.located, (hc.directory l).2 h.directory⟩

end RootAt

/-- The entries are those in the directory at this location, or nothing can be listed. -/
def EntriesAt (c : DiskCache) (fs : FileSystem) (l : Location) : Prop :=
  c.RootAt fs l ∨ ∃ fault, fs.list c.root = .error fault

theorem exists_entriesAt (c : DiskCache) (fs : FileSystem) : ∃ l, c.EntriesAt fs l := by
  cases h : fs.list c.root with
  | error fault => exact ⟨[], .inr ⟨fault, h⟩⟩
  | ok children =>
    obtain ⟨l, hl, hd, -⟩ := exists_directory_of_list h
    exact ⟨l, .inl ⟨hl, hd⟩⟩

theorem list_error_of_confined (hc : Confined P fs fs') {fault : FileFault}
    (h : fs.list c.root = .error fault) : ∃ fault', fs'.list c.root = .error fault' := by
  cases h' : fs'.list c.root with
  | error fault' => exact ⟨fault', rfl⟩
  | ok children =>
    obtain ⟨l, hl, hd, -⟩ := exists_directory_of_list h'
    rw [list_of_directory (hc.locate_iff.1 hl) ((hc.directory l).1 hd)] at h
    cases h

/-! ## Entries -/

/-- The entries in the directory with what they hold. -/
def contents (c : DiskCache) (fs : FileSystem) : List (String × Content) :=
  match fs.list c.root with
  | .error _ => []
  | .ok children => (children.filter fun x => isEntryName x.1).map fun x => (x.1, x.2.content)

theorem contents_of_error {fault : FileFault} (h : fs.list c.root = .error fault) :
    c.contents fs = [] := by
  unfold contents
  rw [h]

theorem entries_of_error {fault : FileFault} (h : fs.list c.root = .error fault) :
    c.entries fs = [] := by
  unfold entries
  rw [h]

theorem map_fst_contents (c : DiskCache) (fs : FileSystem) :
    (c.contents fs).map Prod.fst = (c.entries fs).map Entry.name := by
  unfold contents entries
  cases fs.list c.root with
  | error fault => rfl
  | ok children =>
    rw [List.map_map, List.map_map]
    rfl

theorem isEntryName_of_mem_contents {content : Content} (h : (name, content) ∈ c.contents fs) :
    isEntryName name = true := by
  unfold contents at h
  cases hlist : fs.list c.root with
  | error fault =>
    rw [hlist] at h
    cases h
  | ok children =>
    rw [hlist] at h
    obtain ⟨y, hy, heq⟩ := List.mem_map.1 h
    obtain ⟨rfl, -⟩ := Prod.mk.inj heq
    exact (List.mem_filter.1 hy).2

section

variable (wf : fs.WellFormed) (hr : c.RootAt fs l)

include wf hr

theorem mem_contents_iff {content : Content} : (name, content) ∈ c.contents fs ↔
    isEntryName name = true ∧ (fs.node? (name :: l)).map Node.content = some content := by
  unfold contents
  rw [hr.list]
  simp only [List.mem_map, List.mem_filter, Prod.mk.injEq, Option.map_eq_some_iff]
  constructor
  · rintro ⟨⟨name', n⟩, ⟨hm, he⟩, rfl, rfl⟩
    exact ⟨he, n, wf.mem_children_iff.1 hm, rfl⟩
  · rintro ⟨he, n, hn, rfl⟩
    exact ⟨(name, n), ⟨wf.mem_children_iff.2 hn, he⟩, rfl, rfl⟩

theorem mem_entries_iff : x ∈ c.entries fs ↔
    isEntryName x.name = true ∧ (∃ n, fs.node? (x.name :: l) = some n) ∧
      x.modified = c.modifiedAt fs x.name := by
  unfold entries
  rw [hr.list]
  simp only [List.mem_map, List.mem_filter]
  constructor
  · rintro ⟨⟨name, n⟩, ⟨hm, he⟩, rfl⟩
    exact ⟨he, ⟨n, wf.mem_children_iff.1 hm⟩, rfl⟩
  · rintro ⟨he, ⟨n, hn⟩, ht⟩
    exact ⟨(x.name, n), ⟨wf.mem_children_iff.2 hn, he⟩, by rw [← ht]⟩

theorem named_of_mem (hx : x ∈ c.entries fs) : Named x.name := by
  obtain ⟨-, ⟨n, hn⟩, -⟩ := (mem_entries_iff wf hr).1 hx
  exact (wf.placed _ n hn).named x.name List.mem_cons_self

end

/-- After a change that took entries away, those that it did not concern are still there. -/
theorem mem_contents_of_confined (wf : fs.WellFormed) (wf' : fs'.WellFormed)
    (hl : c.EntriesAt fs l) (hc : Confined P fs fs')
    (hP : isEntryName name = true → P (name :: l) → fs'.node? (name :: l) = none)
    {content : Content} :
    (name, content) ∈ c.contents fs' ↔ (name, content) ∈ c.contents fs ∧ ¬ P (name :: l) := by
  rcases hl with hr | ⟨fault, hlist⟩
  · rw [mem_contents_iff wf' (hr.of_confined hc), mem_contents_iff wf hr]
    by_cases hm : P (name :: l)
    · refine iff_of_false ?_ fun h => h.2 hm
      rintro ⟨he, hn⟩
      rw [hP he hm] at hn
      cases hn
    · rw [hc.content _ hm, and_iff_left hm]
  · obtain ⟨fault', hlist'⟩ := list_error_of_confined hc hlist
    rw [contents_of_error hlist, contents_of_error hlist']
    simp only [List.not_mem_nil, false_and]

theorem nodup_entries (wf : fs.WellFormed) (c : DiskCache) :
    ((c.entries fs).map Entry.name).Nodup := by
  unfold entries
  cases h : fs.list c.root with
  | error fault => exact List.nodup_nil
  | ok children =>
    obtain ⟨l, hl, hd, rfl⟩ := exists_directory_of_list h
    rw [List.map_map]
    exact (wf.nodup_children l).sublist (List.filter_sublist.map _)

/-- The entries are in a strict order. -/
theorem pairwise_byAge (wf : fs.WellFormed) (c : DiskCache) :
    (c.byAge fs).Pairwise Entry.Before := by
  have trans (a b d : Entry) (h : a.le b = true) (h' : b.le d = true) : a.le d = true :=
    Entry.le_trans h h'
  have hsorted : (c.byAge fs).Pairwise fun a b => a.le b = true :=
    List.pairwise_mergeSort trans Entry.le_total (c.entries fs)
  have hne : (c.byAge fs).Pairwise fun a b => a.name ≠ b.name :=
    List.pairwise_map.1 (((List.mergeSort_perm (c.entries fs) Entry.le).map Entry.name).nodup_iff.2
      (nodup_entries wf c))
  refine (hsorted.and hne).imp fun {a b} h => ?_
  obtain ⟨hle, hname⟩ := h
  rcases Entry.le_iff.1 hle with hlt | ⟨heq, hn⟩
  · exact .inl hlt
  · exact .inr ⟨heq, lt_of_le_of_ne hn hname⟩

theorem mem_byAge_iff : x ∈ c.byAge fs ↔ x ∈ c.entries fs :=
  (List.mergeSort_perm (c.entries fs) Entry.le).mem_iff

theorem length_byAge (c : DiskCache) (fs : FileSystem) : (c.byAge fs).length = c.count fs :=
  (List.mergeSort_perm (c.entries fs) Entry.le).length_eq

/-! ## Removing entries -/

theorem locate_pathOf (hr : c.RootAt fs l) (hx : Named x.name)
    (h : fs.locate (c.pathOf x) = .ok m) : m = x.name :: l := by
  unfold pathOf at h
  rw [locate_join_eq hr.located hr.directory hx.plain] at h
  split_ifs at h
  exact (Except.ok.inj h).symm

/-- Some entries are gone, and nothing else changed. -/
structure Cleared (l : Location) (gone : List Entry) (fs fs' : FileSystem) : Prop where
  confined : Confined (fun m => ∃ x ∈ gone, m = x.name :: l) fs fs'
  missing : ∀ x ∈ gone, fs'.node? (x.name :: l) = none

namespace Cleared

theorem refl (l : Location) (fs : FileSystem) : Cleared l [] fs fs :=
  ⟨.refl _ fs, fun _ hx => by cases hx⟩

theorem cons {more : List Entry} (h : Cleared l [x] fs fs') (h' : Cleared l more fs' fs'') :
    Cleared l (x :: more) fs fs'' := by
  refine ⟨(h.confined.mono ?_).trans (h'.confined.mono ?_), fun y hy => ?_⟩
  · rintro m ⟨y, hy, rfl⟩
    obtain rfl := List.mem_singleton.1 hy
    exact ⟨y, List.mem_cons_self, rfl⟩
  · rintro m ⟨y, hy, rfl⟩
    exact ⟨y, List.mem_cons_of_mem _ hy, rfl⟩
  · by_cases hmore : ∃ z ∈ more, y.name :: l = z.name :: l
    · obtain ⟨z, hz, heq⟩ := hmore
      rw [heq]
      exact h'.missing z hz
    · -- what is not among the others was gone before they were
      have hfirst : fs'.node? (y.name :: l) = none := by
        rcases List.mem_cons.1 hy with rfl | hy
        · exact h.missing y List.mem_cons_self
        · exact absurd ⟨y, hy, rfl⟩ hmore
      exact h'.confined.missing hfirst hmore

end Cleared

theorem cleared_of_remove (hr : c.RootAt fs l) (hx : Named x.name)
    (h : fs.remove (c.pathOf x) = .ok fs') : Cleared l [x] fs fs' := by
  obtain ⟨m, bytes, time, hl, -, hgone, hc⟩ := remove_spec h
  obtain rfl := locate_pathOf hr hx hl
  refine ⟨hc.mono fun m hm => ⟨x, List.mem_cons_self, hm⟩, fun y hy => ?_⟩
  obtain rfl := List.mem_singleton.1 hy
  exact hgone

theorem evict_cons (h : fs.remove (c.pathOf x) = .ok fs') (more : List Entry) :
    c.evict fs (x :: more) = { c.evict fs' more with
      notices := .entryEvicted (c.pathOf x) :: (c.evict fs' more).notices } := by
  conv_lhs => unfold evict
  rw [h]

theorem evict_cons_error {fault : FileFault} (h : fs.remove (c.pathOf x) = .error fault)
    (more : List Entry) :
    c.evict fs (x :: more) = ⟨fs, [], .error (.evict (c.pathOf x) fault)⟩ := by
  conv_lhs => unfold evict
  rw [h]

theorem wellFormed_evict (wf : fs.WellFormed) (entries : List Entry) :
    (c.evict fs entries).files.WellFormed := by
  induction entries generalizing fs with
  | nil => exact wf
  | cons x more ih =>
    cases h : fs.remove (c.pathOf x) with
    | error fault =>
      rw [evict_cons_error h]
      exact wf
    | ok fs' =>
      rw [evict_cons h]
      exact ih (wf.remove h)

/-- What a removal of entries did: the first ones are gone, and either these are all or the next one
cannot be removed. -/
theorem evict_spec (hr : c.RootAt fs l) {entries : List Entry} (hn : ∀ x ∈ entries, Named x.name) :
    ∃ gone kept, entries = gone ++ kept ∧ Cleared l gone fs (c.evict fs entries).files ∧
      (c.evict fs entries).notices = gone.map (fun x => .entryEvicted (c.pathOf x)) ∧
      ((c.evict fs entries).result = .ok () ∧ kept = [] ∨ ∃ x rest fault, kept = x :: rest ∧
        (c.evict fs entries).result = .error (.evict (c.pathOf x) fault)) := by
  induction entries generalizing fs with
  | nil => exact ⟨[], [], rfl, .refl l fs, rfl, .inl ⟨rfl, rfl⟩⟩
  | cons x more ih =>
    have hx := hn x List.mem_cons_self
    cases h : fs.remove (c.pathOf x) with
    | error fault =>
      rw [evict_cons_error h]
      exact ⟨[], x :: more, rfl, .refl l fs, rfl, .inr ⟨x, more, fault, rfl, rfl⟩⟩
    | ok fs' =>
      have hfirst := cleared_of_remove hr hx h
      obtain ⟨gone, kept, rfl, hrest, hnotices, hresult⟩ :=
        ih (hr.of_confined hfirst.confined) fun y hy => hn y (List.mem_cons_of_mem _ hy)
      rw [evict_cons h]
      refine ⟨x :: gone, kept, rfl, hfirst.cons hrest, ?_, hresult⟩
      rw [List.map_cons, ← hnotices]

end Courier.DiskCache
