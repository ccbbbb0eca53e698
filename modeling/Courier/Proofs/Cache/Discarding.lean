import Courier.Proofs.Cache.Directory

/-!
# Discarding what was loaded

What is loaded is found by the names in the directory, and what is discarded by the key of the
envelope, which is read from the file or made up if there is none. `loaded` lists the entries that
can be read, each with its envelope. `discard_loaded` says when the two agree: discarding an
envelope removes the file that it was read from if and only if its key leads there, and after all
that was loaded is discarded nothing is loaded again if and only if every file is led to by one of
the keys.
-/

namespace Courier.DiskCache

open FileSystem

variable {c : DiskCache} {fs : FileSystem} {l m : Location} {name key path : String}
  {e : Envelope} {es : List Envelope} {x : Entry} {xs : List Entry} {bytes : Bytes}
  {keys keys' : KeySource} {p : Entry × Envelope} {s : Stored}

/-! ## One envelope -/

theorem discard_files (c : DiskCache) (fs : FileSystem) (e : Envelope) :
    (c.discard fs e).1 = (fs.remove (c.entryPath e.key)).toOption.getD fs := by
  unfold discard
  cases h : fs.remove (c.entryPath e.key) with
  | ok fs' =>
    simp only [h]
    rfl
  | error fault => cases fault <;> simp only [h] <;> rfl

/-- Nothing changes but where the path of the key leads, and nothing at all if there is no file. -/
theorem discard_spec (c : DiskCache) (fs : FileSystem) (e : Envelope) :
    (fs.isFile (c.entryPath e.key) = false ∧ (c.discard fs e).1 = fs) ∨
      ∃ m bytes time, fs.locate (c.entryPath e.key) = .ok m ∧
        fs.node? m = some ⟨.file bytes, time⟩ ∧ (c.discard fs e).1.node? m = none ∧
        Confined (· = m) fs (c.discard fs e).1 := by
  rw [discard_files]
  cases h : fs.remove (c.entryPath e.key) with
  | ok fs' => exact .inr (remove_spec h)
  | error fault =>
    refine .inl ⟨Bool.eq_false_iff.2 fun hfile => ?_, rfl⟩
    obtain ⟨fs', h'⟩ := exists_remove hfile
    rw [h] at h'
    cases h'

theorem confined_discard (c : DiskCache) (fs : FileSystem) (e : Envelope) :
    Confined (fun m => fs.locate (c.entryPath e.key) = .ok m) fs (c.discard fs e).1 := by
  rcases discard_spec c fs e with ⟨-, hsame⟩ | ⟨m, -, -, hl, -, -, hc⟩
  · rw [hsame]
    exact .refl _ fs
  · exact hc.mono fun m' hm' => hm' ▸ hl

theorem wellFormed_discard (wf : fs.WellFormed) (e : Envelope) :
    (c.discard fs e).1.WellFormed := by
  rw [discard_files]
  cases h : fs.remove (c.entryPath e.key) with
  | ok fs' => exact wf.remove h
  | error fault => exact wf

/-- The files that are left are those to which the path of the key does not lead. -/
theorem file_discard_iff :
    ((c.discard fs e).1.node? m).map Node.content = some (.file bytes) ↔
      (fs.node? m).map Node.content = some (.file bytes) ∧
        fs.locate (c.entryPath e.key) ≠ .ok m := by
  by_cases hl : fs.locate (c.entryPath e.key) = .ok m
  · refine iff_of_false (fun h => ?_) fun h => h.2 hl
    rcases discard_spec c fs e with ⟨hno, hsame⟩ | ⟨m', -, -, hl', -, hgone, -⟩
    · rw [hsame] at h
      obtain ⟨⟨content, time⟩, hn, rfl⟩ := Option.map_eq_some_iff.1 h
      rw [isFile_iff.2 ⟨m, bytes, time, hl, hn, endsInSeparator_entryPath c e.key⟩] at hno
      cases hno
    · obtain rfl : m' = m := Except.ok.inj (hl'.symm.trans hl)
      rw [hgone] at h
      cases h
  · rw [(confined_discard c fs e).content m hl, and_iff_left hl]

/-- Discarding an envelope removes one file and no other if and only if its key leads there. -/
theorem removes_iff (hm : (fs.node? m).map Node.content = some (.file bytes)) :
    ((c.discard fs e).1.node? m = none ∧ ∀ m', m' ≠ m →
        ((c.discard fs e).1.node? m').map Node.content = (fs.node? m').map Node.content) ↔
      fs.locate (c.entryPath e.key) = .ok m := by
  constructor
  · rintro ⟨hgone, -⟩
    by_contra hl
    have hstays := file_discard_iff.2 ⟨hm, hl⟩
    rw [hgone] at hstays
    cases hstays
  · intro hl
    obtain ⟨⟨content, time⟩, hn, rfl⟩ := Option.map_eq_some_iff.1 hm
    rcases discard_spec c fs e with ⟨hno, -⟩ | ⟨m', -, -, hl', -, hgone, hc⟩
    · rw [isFile_iff.2 ⟨m, bytes, time, hl, hn, endsInSeparator_entryPath c e.key⟩] at hno
      cases hno
    · obtain rfl : m' = m := Except.ok.inj (hl'.symm.trans hl)
      exact ⟨hgone, hc.content⟩

/-! ## Many envelopes -/

/-- Discard one envelope after the other. -/
def discardAll (c : DiskCache) (fs : FileSystem) (es : List Envelope) : FileSystem :=
  es.foldl (fun fs e => (c.discard fs e).1) fs

theorem confined_discardAll (c : DiskCache) (fs : FileSystem) (es : List Envelope) :
    Confined (fun m => ∃ e ∈ es, fs.locate (c.entryPath e.key) = .ok m) fs
      (c.discardAll fs es) := by
  induction es generalizing fs with
  | nil => exact .refl _ fs
  | cons e more ih =>
    have hc := confined_discard c fs e
    refine (hc.mono fun m hl => ⟨e, List.mem_cons_self, hl⟩).trans ((ih _).mono ?_)
    rintro m ⟨e', he', hl⟩
    exact ⟨e', List.mem_cons_of_mem _ he', hc.locate_iff.1 hl⟩

theorem wellFormed_discardAll (wf : fs.WellFormed) (es : List Envelope) :
    (c.discardAll fs es).WellFormed := by
  induction es generalizing fs with
  | nil => exact wf
  | cons e more ih => exact ih (wellFormed_discard wf e)

theorem file_discardAll_iff :
    ((c.discardAll fs es).node? m).map Node.content = some (.file bytes) ↔
      (fs.node? m).map Node.content = some (.file bytes) ∧
        ∀ e ∈ es, fs.locate (c.entryPath e.key) ≠ .ok m := by
  induction es generalizing fs with
  | nil => exact (and_iff_left (List.forall_mem_nil _)).symm
  | cons e more ih =>
    have hlocate (e' : Envelope) : (c.discard fs e).1.locate (c.entryPath e'.key) = .ok m ↔
        fs.locate (c.entryPath e'.key) = .ok m := (confined_discard c fs e).locate_iff
    show ((c.discardAll (c.discard fs e).1 more).node? m).map Node.content = _ ↔ _
    rw [ih, file_discard_iff, List.forall_mem_cons, and_assoc]
    simp only [Ne, hlocate]

/-! ## What can be loaded -/

/-- The entry of a name can be read. -/
structure ReadableAt (c : DiskCache) (fs : FileSystem) (l : Location) (name : String) : Prop where
  entry : isEntryName name = true
  located : fs.locate (Path.join c.root name) = .ok (name :: l)
  stored : ∃ bytes s, (fs.node? (name :: l)).map Node.content = some (.file bytes) ∧
    Stored.read? bytes = some s

/-- The entries that can be read, each with the envelope that is loaded from it. -/
def loadEntries (c : DiskCache) (fs : FileSystem) (keys : KeySource) :
    List Entry → List (Entry × Envelope)
  | [] => []
  | x :: more =>
    match readEntry fs (c.pathOf x) with
    | .error _ => c.loadEntries fs keys more
    | .ok s => (x, (s.resume keys).1) :: c.loadEntries fs (s.resume keys).2 more

/-- The entries of the directory that can be read, each with the envelope that is loaded from it. -/
def loaded (c : DiskCache) (fs : FileSystem) (keys : KeySource) : List (Entry × Envelope) :=
  c.loadEntries fs keys (c.byAge fs)

theorem map_snd_loadEntries (xs : List Entry) :
    (c.loadEntries fs keys xs).map Prod.snd = (loadPaths fs keys (xs.map c.pathOf)).1 := by
  induction xs generalizing keys with
  | nil => rfl
  | cons x more ih =>
    rw [List.map_cons]
    unfold loadPaths loadEntries
    cases h : readEntry fs (c.pathOf x) with
    | error error => exact ih
    | ok s =>
      simp only [List.map_cons]
      rw [ih]

/-- What is loaded from an entry is what is stored in it, under a key of its own if it is stored
without one. -/
theorem mem_loadEntries (h : p ∈ c.loadEntries fs keys xs) :
    p.1 ∈ xs ∧ ∃ s keys', readEntry fs (c.pathOf p.1) = .ok s ∧ p.2 = (s.resume keys').1 := by
  induction xs generalizing keys with
  | nil => cases h
  | cons x more ih =>
    unfold loadEntries at h
    cases hr : readEntry fs (c.pathOf x) with
    | error error =>
      simp only [hr] at h
      obtain ⟨hm, hs⟩ := ih h
      exact ⟨List.mem_cons_of_mem _ hm, hs⟩
    | ok s =>
      simp only [hr] at h
      rcases List.mem_cons.1 h with rfl | h
      · exact ⟨List.mem_cons_self, s, keys, hr, rfl⟩
      · obtain ⟨hm, hs⟩ := ih h
        exact ⟨List.mem_cons_of_mem _ hm, hs⟩

theorem exists_mem_loadEntries (keys : KeySource) (hx : x ∈ xs)
    (hr : readEntry fs (c.pathOf x) = .ok s) :
    ∃ e, (x, e) ∈ c.loadEntries fs keys xs := by
  induction xs generalizing keys with
  | nil => cases hx
  | cons y more ih =>
    unfold loadEntries
    rcases List.mem_cons.1 hx with rfl | hx
    · simp only [hr]
      exact ⟨_, List.mem_cons_self⟩
    · cases h : readEntry fs (c.pathOf y) with
      | error error => exact ih keys hx
      | ok s' =>
        obtain ⟨e, he⟩ := ih (s'.resume keys).2 hx
        exact ⟨e, List.mem_cons_of_mem _ he⟩

theorem loadAll_eq (c : DiskCache) (fs : FileSystem) (keys : KeySource) :
    (c.loadAll fs keys).1 = (c.loaded fs keys).map Prod.snd :=
  (map_snd_loadEntries _).symm

theorem readEntry_eq_ok_iff :
    readEntry fs path = .ok s ↔ ∃ bytes, fs.read path = .ok bytes ∧ Stored.read? bytes = some s := by
  unfold readEntry
  cases fs.read path with
  | error fault => simp only [reduceCtorEq, false_and, exists_false]
  | ok bytes =>
    simp only [Except.ok.injEq, exists_eq_left']
    cases Stored.read? bytes with
    | none => simp only [reduceCtorEq]
    | some s' => rw [Except.ok.injEq, Option.some.injEq]

section

variable (wf : fs.WellFormed) (hr : c.RootAt fs l)

include wf hr

theorem readableAt_of_readEntry (hx : x ∈ c.entries fs)
    (h : readEntry fs (c.pathOf x) = .ok s) : c.ReadableAt fs l x.name := by
  obtain ⟨bytes, hread, hs⟩ := readEntry_eq_ok_iff.1 h
  obtain ⟨m, hl, hn, -⟩ := read_eq_ok_iff.1 hread
  obtain rfl := locate_pathOf hr (named_of_mem wf hr hx) hl
  exact ⟨((mem_entries_iff wf hr).1 hx).1, hl, bytes, s, hn, hs⟩

theorem readableAt_iff (keys : KeySource) :
    c.ReadableAt fs l name ↔ ∃ p ∈ c.loaded fs keys, p.1.name = name := by
  constructor
  · rintro ⟨hentry, hl, bytes, s, hn, hs⟩
    obtain ⟨n, hnode, -⟩ := Option.map_eq_some_iff.1 hn
    have hname := (wf.placed _ n hnode).named name List.mem_cons_self
    have hx : (⟨c.modifiedAt fs name, name⟩ : Entry) ∈ c.entries fs :=
      (mem_entries_iff wf hr).2 ⟨hentry, ⟨n, hnode⟩, rfl⟩
    have hsep : Path.endsInSeparator (Path.join c.root name) = false := by
      rw [Path.join_eq hr.root_ne_empty hname.plain.separator,
        Path.endsInSeparator_behind hname.plain.nonempty hname.plain.separator]
    obtain ⟨e, he⟩ := exists_mem_loadEntries keys (mem_byAge_iff.2 hx)
      (readEntry_eq_ok_iff.2 ⟨bytes, read_eq_ok_iff.2 ⟨_, hl, hn, hsep⟩, hs⟩)
    exact ⟨_, he, rfl⟩
  · rintro ⟨p, hp, rfl⟩
    obtain ⟨hx, s, -, hread, -⟩ := mem_loadEntries hp
    exact readableAt_of_readEntry wf hr (mem_byAge_iff.1 hx) hread

theorem loadAll_eq_nil_iff : (c.loadAll fs keys).1 = [] ↔ ∀ name, ¬ c.ReadableAt fs l name := by
  rw [loadAll_eq, List.map_eq_nil_iff, List.eq_nil_iff_forall_not_mem]
  constructor
  · intro h name hname
    obtain ⟨p, hp, -⟩ := (readableAt_iff wf hr keys).1 hname
    exact h p hp
  · exact fun h p hp => h _ ((readableAt_iff wf hr keys).2 ⟨p, hp, rfl⟩)

end

/-- What is left to be read are the files to which no key of a discarded envelope leads. -/
theorem readableAt_discardAll_iff : c.ReadableAt (c.discardAll fs es) l name ↔
    c.ReadableAt fs l name ∧ ∀ e ∈ es, fs.locate (c.entryPath e.key) ≠ .ok (name :: l) := by
  have hc := confined_discardAll c fs es
  constructor
  · rintro ⟨hentry, hl, bytes, s, hn, hs⟩
    obtain ⟨hn, hes⟩ := file_discardAll_iff.1 hn
    exact ⟨⟨hentry, hc.locate_iff.1 hl, bytes, s, hn, hs⟩, hes⟩
  · rintro ⟨⟨hentry, hl, bytes, s, hn, hs⟩, hes⟩
    exact ⟨hentry, hc.locate_iff.2 hl, bytes, s, file_discardAll_iff.2 ⟨hn, hes⟩, hs⟩

theorem Usable.locate_iff (hu : c.Usable key) (hr : c.RootAt fs l) :
    fs.locate (c.entryPath key) = .ok (name :: l) ↔ name = entryName key := by
  have hl : fs.locate (c.entryPath key) = .ok (entryName key :: l) :=
    locate_join hr.located hr.directory hu.fits_entry
  rw [hl, Except.ok.injEq, List.cons.injEq, and_iff_left rfl]
  exact eq_comm

/-- **When discarding undoes loading.** Whatever the directory holds, every envelope that is loaded
is what is stored in one of the entries. Discarding it removes the file of this entry and no other
one if and only if its key leads to this file, which for a key that can be the name of a file is
the case if it is the name of this one. When all envelopes that were loaded are discarded, nothing is
loaded again if and only if one of their keys leads to each of the files. -/
theorem discard_loaded (wf : fs.WellFormed) (hr : c.RootAt fs l) (keys keys' : KeySource) :
    (c.loadAll fs keys).1 = (c.loaded fs keys).map Prod.snd ∧
    (∀ x e, (x, e) ∈ c.loaded fs keys →
      (x ∈ c.entries fs ∧
        ∃ s source, readEntry fs (c.pathOf x) = .ok s ∧ e = (s.resume source).1) ∧
      (((c.discard fs e).1.node? (x.name :: l) = none ∧ ∀ m, m ≠ x.name :: l →
          ((c.discard fs e).1.node? m).map Node.content = (fs.node? m).map Node.content) ↔
        fs.locate (c.entryPath e.key) = .ok (x.name :: l)) ∧
      (c.Usable e.key →
        (fs.locate (c.entryPath e.key) = .ok (x.name :: l) ↔ x.name = entryName e.key))) ∧
    ((c.loadAll (c.discardAll fs (c.loadAll fs keys).1) keys').1 = [] ↔
      ∀ x e, (x, e) ∈ c.loaded fs keys → ∃ e' ∈ (c.loadAll fs keys).1,
        fs.locate (c.entryPath e'.key) = .ok (x.name :: l)) := by
  refine ⟨loadAll_eq c fs keys, fun x e hp => ?_, ?_⟩
  · obtain ⟨hx, s, source, hread, he⟩ := mem_loadEntries hp
    have hm := mem_byAge_iff.1 hx
    obtain ⟨-, -, bytes, -, hn, -⟩ := readableAt_of_readEntry wf hr hm hread
    exact ⟨⟨hm, s, source, hread, he⟩, removes_iff hn, fun hu => hu.locate_iff hr⟩
  · rw [loadAll_eq_nil_iff (wellFormed_discardAll wf _)
      (hr.of_confined (confined_discardAll c fs _))]
    simp only [readableAt_discardAll_iff]
    constructor
    · intro h x e hp
      by_contra hno
      exact h x.name ⟨(readableAt_iff wf hr keys).2 ⟨_, hp, rfl⟩, fun e' he' hl => hno ⟨e', he', hl⟩⟩
    · rintro h name ⟨hname, hno⟩
      obtain ⟨⟨x, e⟩, hp, rfl⟩ := (readableAt_iff wf hr keys).1 hname
      obtain ⟨e', he', hl⟩ := h x e hp
      exact hno e' he' hl

/-- A directory with an entry that was stored without a key. -/
def keylessFiles : FileSystem :=
  ⟨[(["kept"], ⟨.directory, 0⟩), (["old.envelope", "kept"],
    ⟨.file (Bytes.ofText "\x7b\"header\":\x7b\x7d,\"items\":[]\x7d"), 0⟩)], [], 0⟩

/-- Its envelope is loaded again after it was discarded. -/
theorem loadAll_keylessFiles :
    (loadAll ⟨"/kept", 1⟩ keylessFiles ⟨0, 0, 0⟩).1 =
        [⟨KeySource.key ⟨0, 0, 0⟩, ⟨none, none⟩, []⟩] ∧
      (loadAll ⟨"/kept", 1⟩ (discardAll ⟨"/kept", 1⟩ keylessFiles
        (loadAll ⟨"/kept", 1⟩ keylessFiles ⟨0, 0, 0⟩).1) ⟨0, 0, 1⟩).1 ≠ [] := by
  have hload : (loadAll ⟨"/kept", 1⟩ keylessFiles ⟨0, 0, 0⟩).1 =
      [⟨KeySource.key ⟨0, 0, 0⟩, ⟨none, none⟩, []⟩] := by decide +kernel
  refine ⟨hload, ?_⟩
  have wf : keylessFiles.WellFormed := .of_nodes (by decide +kernel)
  have hr : RootAt ⟨"/kept", 1⟩ keylessFiles ["kept"] := ⟨by decide +kernel, by decide +kernel⟩
  obtain ⟨-, -, hagain⟩ := discard_loaded wf hr ⟨0, 0, 0⟩ ⟨0, 0, 1⟩
  rw [Ne, hagain, hload]
  intro h
  have hmem : (⟨0, "old.envelope"⟩, ⟨KeySource.key ⟨0, 0, 0⟩, ⟨none, none⟩, []⟩) ∈
      loaded ⟨"/kept", 1⟩ keylessFiles ⟨0, 0, 0⟩ := by decide +kernel
  obtain ⟨e', he', hl⟩ := h _ _ hmem
  obtain rfl := List.mem_singleton.1 he'
  exact absurd hl (by decide +kernel)

end Courier.DiskCache
