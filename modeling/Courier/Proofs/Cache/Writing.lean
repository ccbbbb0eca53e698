import Courier.Proofs.Cache.Directory

/-!
# Storing in any directory

The two files of a key are held by one directory, its home, wherever its paths lead
(`exists_home`); for a key without separators that is the directory of the cache (`RootAt.home`).
`tryStore_spec` says what storing an envelope under any key does to the file system: the first
entries are gone, then either something failed and at most the file that is written first is there,
or the new entry is there and that file is not.
-/

namespace Courier.DiskCache

open FileSystem

variable {c : DiskCache} {fs fs' : FileSystem} {l m d : Location} {name key : String}
  {bytes : Bytes} {e : Envelope} {gone : List Entry} {P : Location → Prop}

/-! ## The home of a key -/

/-- Where the file of a key is in a directory. -/
def entryAt (d : Location) (key : String) : Location := entryName (Path.lastPiece key) :: d

/-- Where the file that is written first is in a directory. -/
def draftAt (d : Location) (key : String) : Location := draftName (Path.lastPiece key) :: d

/-- Both paths of a key lead into a directory, if they lead anywhere. The path of the file that is
written first may also lead to another directory, and then nothing is written. -/
structure Home (c : DiskCache) (fs : FileSystem) (key : String) (d : Location) : Prop where
  entry : ∀ m, fs.locate (c.entryPath key) = .ok m → m = entryAt d key
  draft : ∀ m, fs.locate (c.temporaryPath key) = .ok m → fs.DirectoryAt m ∨ m = draftAt d key

theorem home_of_walk (wf : fs.WellFormed) {stem : List Char} (hs : Path.IsStem stem)
    (hentry : c.entryPath key = Path.behind stem (entryName (Path.lastPiece key)))
    (hdraft : c.temporaryPath key = Path.behind stem (draftName (Path.lastPiece key)))
    (hd : ∀ d', fs.walk stem = .ok d' → d' = d) : c.Home fs key d := by
  have hn := Path.not_mem_lastPiece key
  constructor
  · intro m hm
    rw [hentry] at hm
    obtain ⟨-, d', hw, -, rfl⟩ := eq_cons_of_locate hs (isName_entryName hn) hm
    obtain rfl := hd d' hw
    rfl
  · intro m hm
    rw [hdraft] at hm
    by_cases hdot : Path.lastPiece key = "."
    · left
      rw [hdot] at hm
      obtain ⟨-, d', -, he⟩ := exists_enter_of_locate hs (by decide) (by decide) hm
      have hdir := directoryAt_of_enter he
      rw [enter_of_directory hdir] at he
      obtain rfl := Except.ok.inj he
      exact (wf.canHold_of_directoryAt hdir).held
    · right
      obtain ⟨-, d', hw, -, rfl⟩ := eq_cons_of_locate hs (isName_draftName hn hdot) hm
      obtain rfl := hd d' hw
      rfl

theorem exists_home (wf : fs.WellFormed) (c : DiskCache) (key : String) :
    ∃ d, c.Home fs key d := by
  obtain ⟨stem, hs, hentry, hdraft⟩ := exists_paths c key
  cases hw : fs.walk stem with
  | error fault =>
    refine ⟨[], home_of_walk wf hs hentry hdraft fun d' hd' => ?_⟩
    rw [hw] at hd'
    cases hd'
  | ok d =>
    refine ⟨d, home_of_walk wf hs hentry hdraft fun d' hd' => ?_⟩
    rw [hw] at hd'
    exact (Except.ok.inj hd').symm

/-- The home of a key without separators is the directory of the cache. -/
theorem RootAt.home (hr : c.RootAt fs l) (wf : fs.WellFormed) (hn : '/' ∉ key.toList) :
    c.Home fs key l := by
  obtain ⟨hentry, hdraft⟩ := paths_of_not_mem hr.root_ne_empty hn
  have hpiece := Path.lastPiece_of_not_mem hn
  have hwalk := walk_stemOf hr.located
  refine home_of_walk wf (Path.isStem_stemOf c.root) (by rw [hpiece]; exact hentry)
    (by rw [hpiece]; exact hdraft) fun d' hd' => ?_
  rw [hwalk] at hd'
  exact (Except.ok.inj hd').symm

theorem Home.of_confined (h : c.Home fs key d) (hc : Confined P fs fs') : c.Home fs' key d := by
  constructor
  · intro m hm
    exact h.entry m (hc.locate_iff.1 hm)
  · intro m hm
    exact (h.draft m (hc.locate_iff.1 hm)).imp_left (hc.directory m).2

theorem entryAt_of_not_mem (hn : '/' ∉ key.toList) (d : Location) :
    entryAt d key = entryName key :: d := by
  unfold entryAt
  rw [Path.lastPiece_of_not_mem hn]

theorem Usable.draftAt_eq (hu : c.Usable key) (d : Location) :
    draftAt d key = temporaryName key :: d := by
  unfold draftAt
  rw [Path.lastPiece_of_not_mem hu.separator, draftName_of_ne hu.nonempty hu.notDot]

theorem entryAt_ne_draftAt (d d' : Location) (key : String) : entryAt d key ≠ draftAt d' key := by
  intro h
  have hname : entryName (Path.lastPiece key) = draftName (Path.lastPiece key) :=
    (List.cons.inj h).1
  have hdraft := isEntryName_draftName (Path.not_mem_lastPiece key)
  rw [← hname, isEntryName_entryName (Path.not_mem_lastPiece key)] at hdraft
  -- only the empty piece gives a name without an extension, and its draft has another name
  have hpiece : Path.lastPiece key = "" := not_not.1 (of_decide_eq_false hdraft)
  rw [hpiece] at hname
  exact absurd hname (by decide)

/-! ## Writing the files of a key -/

/-- Either something failed, and at most the file that is written first is there, or the entry is
there and that file is not. -/
theorem writeEntry_spec (wf : fs.WellFormed) (home : c.Home fs key d) {r : Except StoreError Unit}
    (h : c.writeEntry fs key bytes = (fs', r)) : fs'.WellFormed ∧
    ((∃ error, r = .error error ∧ Confined (· = draftAt d key) fs fs') ∨
      (r = .ok () ∧ fs.locate (c.entryPath key) = .ok (entryAt d key) ∧
        (∃ time, fs'.node? (entryAt d key) = some ⟨.file bytes, time⟩) ∧
        fs'.node? (draftAt d key) = none ∧
        Confined (fun m => m = draftAt d key ∨ m = entryAt d key) fs fs')) := by
  unfold writeEntry at h
  cases hw : fs.write (c.temporaryPath key) bytes with
  | error fault =>
    simp only [hw, Prod.mk.injEq] at h
    obtain ⟨rfl, rfl⟩ := h
    exact ⟨wf, .inl ⟨_, rfl, .refl _ fs⟩⟩
  | ok fs₁ =>
    obtain ⟨m, hm, hdir, ⟨time, hdraft⟩, hc⟩ := write_spec hw
    obtain rfl := (home.draft m hm).resolve_left hdir
    have wf₁ : fs₁.WellFormed := wf.write hw
    cases hrn : fs₁.rename (c.temporaryPath key) (c.entryPath key) with
    | error fault =>
      simp only [hw, hrn, Prod.mk.injEq] at h
      obtain ⟨rfl, rfl⟩ := h
      exact ⟨wf₁, .inl ⟨_, rfl, hc⟩⟩
    | ok fs₂ =>
      simp only [hw, hrn, Prod.mk.injEq] at h
      obtain ⟨rfl, rfl⟩ := h
      obtain ⟨l₁, m₁, bytes₁, time₁, hl₁, hm₁, hn₁, -, hn₂, hgone, hc₂⟩ := rename_spec hrn
      obtain rfl : draftAt d key = l₁ := Except.ok.inj (hm.symm.trans (hc.locate_iff.1 hl₁))
      obtain rfl := (home.of_confined hc).entry m₁ hm₁
      rw [hdraft] at hn₁
      obtain ⟨rfl, rfl⟩ : bytes = bytes₁ ∧ time = time₁ := by simpa using hn₁
      exact ⟨wf₁.rename hrn, .inr ⟨rfl, hc.locate_iff.1 hm₁, ⟨time, hn₂⟩,
        hgone (entryAt_ne_draftAt d d key).symm, (hc.mono fun _ => .inl).trans hc₂⟩⟩

/-- Both files of a key can be written where no directories are. -/
theorem writeEntry_eq_ok {m' : Location} (hdraft : fs.locate (c.temporaryPath key) = .ok m)
    (hm : ¬ fs.DirectoryAt m) (hentry : fs.locate (c.entryPath key) = .ok m')
    (hm' : ¬ fs.DirectoryAt m') (bytes : Bytes) :
    ∃ fs', c.writeEntry fs key bytes = (fs', .ok ()) := by
  have hs := endsInSeparator_temporaryPath c key
  obtain ⟨fs₁, hw⟩ := exists_write hdraft hm hs bytes
  obtain ⟨m₁, hm₁, -, ⟨time, hnode⟩, hc⟩ := write_spec hw
  have hfile : fs₁.isFile (c.temporaryPath key) = true := by
    unfold isFile FileSystem.find
    simp [hc.locate_iff.2 hm₁, hnode, hs, bind, Except.bind]
  obtain ⟨fs₂, hrn⟩ := exists_rename hfile (hc.locate_iff.2 hentry) (mt (hc.directory m').1 hm')
    (endsInSeparator_entryPath c key)
  refine ⟨fs₂, ?_⟩
  unfold writeEntry
  simp only [hw, hrn]

/-! ## Storing -/

theorem evict_eq_ok (hr : c.RootAt fs l) {entries : List Entry} (hn : ∀ x ∈ entries, Named x.name)
    (hnodup : (entries.map Entry.name).Nodup)
    (hfile : ∀ x ∈ entries, fs.isFile (c.pathOf x) = true) :
    (c.evict fs entries).result = .ok () := by
  induction entries generalizing fs with
  | nil => rfl
  | cons x more ih =>
    rw [List.map_cons, List.nodup_cons] at hnodup
    have hx := hn x List.mem_cons_self
    obtain ⟨fs', hremove⟩ := exists_remove (hfile x List.mem_cons_self)
    have hc := (cleared_of_remove hr hx hremove).confined
    rw [evict_cons hremove]
    refine ih (hr.of_confined hc) (fun y hy => hn y (List.mem_cons_of_mem _ hy)) hnodup.2
      fun y hy => hc.isFile (hfile y (List.mem_cons_of_mem _ hy)) fun m hm hP => ?_
    obtain rfl := locate_pathOf hr (hn y (List.mem_cons_of_mem _ hy)) hm
    obtain ⟨z, hz, heq⟩ := hP
    obtain rfl := List.mem_singleton.1 hz
    exact hnodup.1 (List.mem_map.2 ⟨y, hy, (List.cons.inj heq).1⟩)

/-- The entries that have to make room for another one, the oldest first. -/
def surplus (c : DiskCache) (fs : FileSystem) : List Entry :=
  (c.byAge fs).take (c.count fs - (c.maxItems - 1))

theorem mem_entries_of_mem_surplus {x : Entry} (hx : x ∈ c.surplus fs) : x ∈ c.entries fs :=
  mem_byAge_iff.1 (List.mem_of_mem_take hx)

theorem tryStore_of_contains (h : c.contains fs e = true) : c.tryStore fs e = ⟨fs, [], .ok false⟩ :=
  if_pos h

theorem not_contains_of_ne (h : (c.tryStore fs e).result ≠ .ok false) : c.contains fs e = false := by
  by_contra hc
  rw [tryStore_of_contains (Bool.eq_true_of_not_eq_false hc)] at h
  exact h rfl

section

variable (absent : c.contains fs e = false)

include absent

theorem tryStore_of_evict_error {error : StoreError}
    (h : (c.evict fs (c.surplus fs)).result = .error error) :
    c.tryStore fs e = ⟨(c.evict fs (c.surplus fs)).files, (c.evict fs (c.surplus fs)).notices,
      .error error⟩ := by
  unfold tryStore evictDownTo
  rw [if_neg (by rw [absent]; exact Bool.false_ne_true)]
  unfold surplus at h ⊢
  simp only [h]

theorem tryStore_of_unwritable (h : (c.evict fs (c.surplus fs)).result = .ok ())
    (hw : e.write? = none) :
    c.tryStore fs e = ⟨(c.evict fs (c.surplus fs)).files, (c.evict fs (c.surplus fs)).notices,
      .error .serialize⟩ := by
  unfold tryStore evictDownTo
  rw [if_neg (by rw [absent]; exact Bool.false_ne_true)]
  unfold surplus at h ⊢
  simp only [h, hw]

theorem tryStore_of_written (h : (c.evict fs (c.surplus fs)).result = .ok ())
    (hw : e.write? = some bytes) :
    c.tryStore fs e =
      ⟨(c.writeEntry (c.evict fs (c.surplus fs)).files e.key bytes).1,
        (c.evict fs (c.surplus fs)).notices,
        (c.writeEntry (c.evict fs (c.surplus fs)).files e.key bytes).2.map fun _ => true⟩ := by
  unfold tryStore evictDownTo
  rw [if_neg (by rw [absent]; exact Bool.false_ne_true)]
  unfold surplus at h ⊢
  simp only [h, hw]

end

/-- What a failed store left: some of the first entries are gone, all that had to make room unless one
of them could not be removed, and besides them at most the file that is written first has changed. -/
structure Failed (c : DiskCache) (l d : Location) (key : String) (gone kept : List Entry)
    (fs fs' : FileSystem) (error : StoreError) : Prop where
  confined : Confined (fun m => (∃ x ∈ gone, m = x.name :: l) ∨ m = draftAt d key) fs fs'
  cause : kept = [] ∨
    ∃ x rest fault, kept = x :: rest ∧ error = .evict (c.pathOf x) fault

/-- What a successful store left: the first entries are gone, the new one is there, and the file that
is written first is not. -/
structure Added (c : DiskCache) (l d : Location) (e : Envelope) (gone kept : List Entry)
    (fs fs' : FileSystem) : Prop where
  confined : Confined
    (fun m => (∃ x ∈ gone, m = x.name :: l) ∨ m = draftAt d e.key ∨ m = entryAt d e.key) fs fs'
  all : kept = []
  located : fs.locate (c.entryPath e.key) = .ok (entryAt d e.key)
  entry : ∃ bytes time, e.write? = some bytes ∧
    fs'.node? (entryAt d e.key) = some ⟨.file bytes, time⟩
  draft : fs'.node? (draftAt d e.key) = none

theorem ne_draftAt (hname : isEntryName name = true) (l d : Location) (key : String) :
    name :: l ≠ draftAt d key := by
  intro h
  have hdraft := isEntryName_draftName (Path.not_mem_lastPiece key)
  rw [← (List.cons.inj h).1, hname] at hdraft
  cases hdraft

section

variable (wf : fs.WellFormed) (hl : c.EntriesAt fs l)

include wf hl

/-- What making room does: the first entries are gone, and either these are all that had to make room
or the next one cannot be removed. -/
theorem evict_surplus_spec :
    ∃ gone kept, c.surplus fs = gone ++ kept ∧ Cleared l gone fs (c.evict fs (c.surplus fs)).files ∧
      (c.evict fs (c.surplus fs)).files.WellFormed ∧
      (c.evict fs (c.surplus fs)).notices = gone.map (fun x => .entryEvicted (c.pathOf x)) ∧
      (∀ x ∈ gone, isEntryName x.name = true ∧ ∃ n, fs.node? (x.name :: l) = some n) ∧
      ((c.evict fs (c.surplus fs)).result = .ok () ∧ kept = [] ∨
        ∃ x rest fault, kept = x :: rest ∧
          (c.evict fs (c.surplus fs)).result = .error (.evict (c.pathOf x) fault)) := by
  rcases hl with hr | ⟨fault, hlist⟩
  · have hnamed (x) (hx : x ∈ c.surplus fs) : Named x.name :=
      named_of_mem wf hr (mem_entries_of_mem_surplus hx)
    obtain ⟨gone, kept, hsplit, hcleared, hnotices, hresult⟩ := evict_spec hr hnamed
    have hsub (x) (hx : x ∈ gone) : x ∈ c.surplus fs := by
      rw [hsplit]
      exact List.mem_append_left _ hx
    refine ⟨gone, kept, hsplit, hcleared, wellFormed_evict wf _, hnotices, fun x hx => ?_, hresult⟩
    obtain ⟨he, hn, -⟩ := (mem_entries_iff wf hr).1 (mem_entries_of_mem_surplus (hsub x hx))
    exact ⟨he, hn⟩
  · have hnone : c.surplus fs = [] := by
      refine List.eq_nil_iff_forall_not_mem.2 fun x hx => ?_
      have hm := mem_entries_of_mem_surplus hx
      rw [entries_of_error hlist] at hm
      cases hm
    rw [hnone]
    exact ⟨[], [], rfl, .refl l fs, wf, rfl, List.forall_mem_nil _, .inl ⟨rfl, rfl⟩⟩

/-- What storing an envelope whose file is not there does: the first entries are removed, and then it
either fails or adds the entry. -/
theorem tryStore_spec (home : c.Home fs e.key d) (absent : c.contains fs e = false) :
    ∃ gone kept, c.surplus fs = gone ++ kept ∧
      (c.tryStore fs e).notices = gone.map (fun x => .entryEvicted (c.pathOf x)) ∧
      (c.tryStore fs e).files.WellFormed ∧
      (∀ x ∈ gone, (c.tryStore fs e).files.node? (x.name :: l) = none) ∧
      ((∃ error, (c.tryStore fs e).result = .error error ∧
          c.Failed l d e.key gone kept fs (c.tryStore fs e).files error) ∨
        ((c.tryStore fs e).result = .ok true ∧
          c.Added l d e gone kept fs (c.tryStore fs e).files)) := by
  obtain ⟨gone, kept, hsplit, hcleared, wf₁, hnotices, hentry, hresult⟩ := evict_surplus_spec wf hl
  refine ⟨gone, kept, hsplit, ?_⟩
  have hconfined {Q : Location → Prop} : Confined
      (fun m => (∃ x ∈ gone, m = x.name :: l) ∨ Q m) fs (c.evict fs (c.surplus fs)).files :=
    hcleared.confined.mono fun _ => .inl
  have hdraft (x) (hx : x ∈ gone) : x.name :: l ≠ draftAt d e.key :=
    ne_draftAt (hentry x hx).1 l d e.key
  rcases hresult with ⟨hok, hkept⟩ | ⟨x, rest, fault, hkept, herror⟩
  · cases hw : e.write? with
    | none =>
      rw [tryStore_of_unwritable absent hok hw]
      exact ⟨hnotices, wf₁, hcleared.missing, .inl ⟨_, rfl, hconfined, .inl hkept⟩⟩
    | some bytes =>
      rw [tryStore_of_written absent hok hw]
      generalize hout : c.writeEntry (c.evict fs (c.surplus fs)).files e.key bytes = out
      obtain ⟨fs₂, r⟩ := out
      obtain ⟨wf₂, ⟨error, rfl, hc⟩ | ⟨rfl, hl₁, ⟨time, hnew⟩, hnone, hc⟩⟩ :=
        writeEntry_spec wf₁ (home.of_confined hcleared.confined) hout
      · refine ⟨hnotices, wf₂, fun x hx => hc.missing (hcleared.missing x hx) (hdraft x hx), .inl
          ⟨error, rfl, hconfined.trans (hc.mono fun _ => .inr), .inl hkept⟩⟩
      · -- the new entry takes the place of none of those that are gone, as nothing was there
        have hl₀ := hcleared.confined.locate_iff.1 hl₁
        have hplace := node?_eq_none_of_not_contains absent hl₀ (endsInSeparator_entryPath c e.key)
        have hother (x) (hx : x ∈ gone) : x.name :: l ≠ entryAt d e.key := by
          intro heq
          obtain ⟨-, n, hn⟩ := hentry x hx
          rw [heq, hplace] at hn
          cases hn
        refine ⟨hnotices, wf₂, fun x hx => hc.missing (hcleared.missing x hx) ?_, .inr ⟨rfl, ?_⟩⟩
        · rintro (h | h)
          · exact hdraft x hx h
          · exact hother x hx h
        · exact ⟨hconfined.trans (hc.mono fun _ => .inr), hkept, hl₀, ⟨bytes, time, hw, hnew⟩, hnone⟩
  · rw [tryStore_of_evict_error absent herror]
    exact ⟨hnotices, wf₁, hcleared.missing, .inl ⟨_, rfl, hconfined,
      .inr ⟨x, rest, fault, hkept, rfl⟩⟩⟩

end

end Courier.DiskCache
