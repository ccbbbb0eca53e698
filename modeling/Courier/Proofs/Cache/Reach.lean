import Courier.Proofs.Cache.Bounded
import Courier.Proofs.Cache.Discarding
import Courier.Proofs.Cache.Writing
import Courier.Proofs.Envelope.RoundTrip

/-!
# How far a cache reaches

A key is put into a path as it is. `reach_of_key` says for every key which files a cache looks at and
changes: besides the entries that make room these are two in the directory to which the key leads, and
for a key without separators that is the directory of the cache. An entry that was made is among those
of the cache if and only if the key leads to this directory and something stands behind its last
separator. `confined_run` says of whole runs that a cache stays in its directory as long as no key has
a separator.
-/

namespace Courier.DiskCache

open FileSystem

variable {c : DiskCache} {fs fs' : FileSystem} {l m d : Location} {name key : String}
  {e : Envelope} {x : Entry} {bytes : Bytes}

/-! ## Looking for a file -/

theorem Home.contains_iff (home : c.Home fs e.key d) : c.contains fs e = true ↔
    fs.locate (c.entryPath e.key) = .ok (entryAt d e.key) ∧
      ∃ n, fs.node? (entryAt d e.key) = some n := by
  unfold DiskCache.contains
  rw [FileSystem.contains_iff (endsInSeparator_entryPath c e.key)]
  constructor
  · rintro ⟨m, n, hl, hn⟩
    obtain rfl := home.entry m hl
    exact ⟨hl, n, hn⟩
  · rintro ⟨hl, n, hn⟩
    exact ⟨_, n, hl, hn⟩

/-! ## Changing files -/

theorem Home.confined_discard (home : c.Home fs e.key d) :
    Confined (· = entryAt d e.key) fs (c.discard fs e).1 :=
  (DiskCache.confined_discard c fs e).mono home.entry

theorem Home.confined_store (home : c.Home fs e.key d) (wf : fs.WellFormed)
    (hl : c.EntriesAt fs l) :
    Confined (fun m => (∃ x ∈ c.surplus fs, m = x.name :: l) ∨ m = draftAt d e.key ∨
      m = entryAt d e.key) fs (c.store fs e).1 := by
  show Confined _ fs (c.tryStore fs e).files
  cases hc : c.contains fs e with
  | true =>
    rw [tryStore_of_contains hc]
    exact .refl _ fs
  | false =>
    obtain ⟨gone, kept, hsplit, -, -, -, ⟨error, -, hf⟩ | ⟨-, ha⟩⟩ := tryStore_spec wf hl home hc
    · refine hf.confined.mono ?_
      rintro m (⟨x, hx, rfl⟩ | rfl)
      · exact .inl ⟨x, hsplit ▸ List.mem_append_left _ hx, rfl⟩
      · exact .inr (.inl rfl)
    · refine ha.confined.mono ?_
      rintro m (⟨x, hx, rfl⟩ | rfl | rfl)
      · exact .inl ⟨x, hsplit ▸ List.mem_append_left _ hx, rfl⟩
      · exact .inr (.inl rfl)
      · exact .inr (.inr rfl)

/-! ## New entries -/

/-- What a store that succeeded has made. -/
theorem Home.made_of_ok (home : c.Home fs e.key d) (wf : fs.WellFormed) (hl : c.EntriesAt fs l)
    (h : (c.tryStore fs e).result = .ok true) :
    fs.locate (c.entryPath e.key) = .ok (entryAt d e.key) ∧ fs.node? (entryAt d e.key) = none ∧
      (c.store fs e).1.WellFormed ∧ ∃ bytes, e.write? = some bytes ∧
        ((c.store fs e).1.node? (entryAt d e.key)).map Node.content = some (.file bytes) := by
  have absent : c.contains fs e = false := not_contains_of_ne (by rw [h]; simp)
  obtain ⟨gone, kept, -, -, wf', -, ⟨error, herror, -⟩ | ⟨-, ha⟩⟩ := tryStore_spec wf hl home absent
  · rw [h] at herror
    cases herror
  · obtain ⟨bytes, time, hw, hn⟩ := ha.entry
    refine ⟨ha.located, node?_eq_none_of_not_contains absent ha.located
      (endsInSeparator_entryPath c e.key), wf', bytes, hw, ?_⟩
    show ((c.tryStore fs e).files.node? _).map _ = _
    rw [hn]
    rfl

theorem exists_mem_entries_iff (wf : fs.WellFormed) (hr : c.RootAt fs l) {n : Node}
    (hn : fs.node? (entryAt d key) = some n) :
    (∃ x ∈ c.entries fs, x.name :: l = entryAt d key) ↔ d = l ∧ Path.lastPiece key ≠ "" := by
  have hname : isEntryName (entryName (Path.lastPiece key)) = decide (Path.lastPiece key ≠ "") :=
    isEntryName_entryName (Path.not_mem_lastPiece key)
  unfold entryAt at hn ⊢
  constructor
  · rintro ⟨x, hx, heq⟩
    obtain ⟨hxname, hl⟩ := List.cons.inj heq
    subst hl
    have hentry := ((mem_entries_iff wf hr).1 hx).1
    rw [hxname, hname] at hentry
    exact ⟨rfl, of_decide_eq_true hentry⟩
  · rintro ⟨rfl, hpiece⟩
    rw [decide_eq_true hpiece] at hname
    generalize entryName (Path.lastPiece key) = name at hn hname ⊢
    exact ⟨⟨c.modifiedAt fs name, name⟩, (mem_entries_iff wf hr).2 ⟨hname, ⟨n, hn⟩, rfl⟩, rfl⟩

/-- An envelope that was stored under a key without separators is loaded as it is, unless the key is
empty. -/
theorem mem_loaded_of_stored (wf : fs.WellFormed) (hr : c.RootAt fs l) (keys : KeySource)
    (hn : '/' ∉ e.key.toList) (h₀ : e.key ≠ "")
    (hl : fs.locate (c.entryPath e.key) = .ok (entryName e.key :: l))
    (hw : e.write? = some bytes)
    (hm : (fs.node? (entryName e.key :: l)).map Node.content = some (.file bytes)) :
    ∃ x, (x, e) ∈ c.loaded fs keys ∧ x.name = entryName e.key := by
  have hentry : isEntryName (entryName e.key) = true := by
    rw [isEntryName_entryName hn]
    exact decide_eq_true h₀
  have hstored := Stored.read?_of_write? hw
  obtain ⟨⟨x, e'⟩, hp, hname⟩ :=
    (readableAt_iff wf hr keys).1 ⟨hentry, hl, bytes, _, hm, hstored⟩
  -- what is read from the file can only be what was written
  obtain ⟨-, s, source, hread, he⟩ := mem_loadEntries hp
  have hpath : c.pathOf x = c.entryPath e.key := congrArg (Path.join c.root) hname
  obtain ⟨bytes', hbytes, hs⟩ := readEntry_eq_ok_iff.1 hread
  rw [hpath] at hbytes
  obtain ⟨m, hlm, hm', -⟩ := read_eq_ok_iff.1 hbytes
  obtain rfl := Except.ok.inj (hl.symm.trans hlm)
  obtain rfl : bytes = bytes' := by simpa using hm.symm.trans hm'
  obtain rfl := Option.some.inj (hstored.symm.trans hs)
  obtain rfl : e' = e := he
  exact ⟨x, hp, hname⟩

/-- **How far a cache reaches.** For every key there is a directory to which it leads. Whether an
envelope is there depends on one place in this directory, discarding it changes nothing but this
place, and storing it changes nothing but this place, that of the file which is written first in the
same directory, and the entries that make room. A new entry is among the entries of the cache if and
only if this directory is that of the cache and something stands behind the last separator of the
key. For a key without separators it is the directory of the cache, so that nothing is looked up or
changed but what is in it, and the new entry is counted and loaded unless the key is empty. -/
theorem reach_of_key (wf : fs.WellFormed) (hr : c.RootAt fs l) (e : Envelope) :
    ∃ d, ('/' ∉ e.key.toList → d = l) ∧
      (c.contains fs e = true ↔ fs.locate (c.entryPath e.key) = .ok (entryAt d e.key) ∧
        ∃ n, fs.node? (entryAt d e.key) = some n) ∧
      Confined (· = entryAt d e.key) fs (c.discard fs e).1 ∧
      Confined (fun m => (∃ x ∈ c.surplus fs, m = x.name :: l) ∨ m = draftAt d e.key ∨
        m = entryAt d e.key) fs (c.store fs e).1 ∧
      ((c.tryStore fs e).result = .ok true →
        fs.node? (entryAt d e.key) = none ∧
        (∃ n, (c.store fs e).1.node? (entryAt d e.key) = some n) ∧
        ((∃ x ∈ c.entries (c.store fs e).1, x.name :: l = entryAt d e.key) ↔
          d = l ∧ Path.lastPiece e.key ≠ "") ∧
        ('/' ∉ e.key.toList → e.key ≠ "" → ∀ keys, ∃ x, (x, e) ∈ c.loaded (c.store fs e).1 keys ∧
          x.name :: l = entryAt d e.key)) := by
  obtain ⟨d, home, hd⟩ : ∃ d, c.Home fs e.key d ∧ ('/' ∉ e.key.toList → d = l) := by
    by_cases hn : '/' ∈ e.key.toList
    · obtain ⟨d, home⟩ := exists_home wf c e.key
      exact ⟨d, home, fun h => absurd hn h⟩
    · exact ⟨l, hr.home wf hn, fun _ => rfl⟩
  have hstore := home.confined_store wf (.inl hr)
  refine ⟨d, hd, home.contains_iff, home.confined_discard, hstore, fun hok => ?_⟩
  obtain ⟨hlocated, hfresh, wf', bytes, hw, hm⟩ := home.made_of_ok wf (.inl hr) hok
  obtain ⟨n, hnode, -⟩ := Option.map_eq_some_iff.1 hm
  have hr' := hr.of_confined hstore
  refine ⟨hfresh, ⟨n, hnode⟩, exists_mem_entries_iff wf' hr' hnode, fun hn h₀ keys => ?_⟩
  obtain rfl := hd hn
  rw [entryAt_of_not_mem hn] at hlocated hm ⊢
  obtain ⟨x, hx, hname⟩ :=
    mem_loaded_of_stored wf' hr' keys hn h₀ (hstore.locate_iff.2 hlocated) hw hm
  exact ⟨x, hx, by rw [hname]⟩

/-- The directory of a cache when it was made. -/
def freshFiles : FileSystem := ⟨[(["kept"], ⟨.directory, 0⟩)], [], 0⟩

def emptyEnvelope (key : String) : Envelope := ⟨key, ⟨none, none⟩, []⟩

/-- One key leads out of the directory, and what is stored under the empty one is not an entry. -/
theorem reach_of_freshFiles :
    (tryStore ⟨"/kept", 1⟩ freshFiles (emptyEnvelope "../outside")).result = .ok true ∧
      (store ⟨"/kept", 1⟩ freshFiles (emptyEnvelope "../outside")).1.isFile "/outside.envelope" ∧
      (tryStore ⟨"/kept", 1⟩ freshFiles (emptyEnvelope "")).result = .ok true ∧
      (store ⟨"/kept", 1⟩ freshFiles (emptyEnvelope "")).1.isFile "/kept/.envelope" ∧
      ¬ ∃ x ∈ entries ⟨"/kept", 1⟩ (store ⟨"/kept", 1⟩ freshFiles (emptyEnvelope "")).1,
        x.name = ".envelope" := by
  have wf : freshFiles.WellFormed := .of_nodes (by decide +kernel)
  have hr : RootAt ⟨"/kept", 1⟩ freshFiles ["kept"] := ⟨by decide +kernel, by decide +kernel⟩
  have hok : (tryStore ⟨"/kept", 1⟩ freshFiles (emptyEnvelope "")).result = .ok true := by
    decide +kernel
  refine ⟨by decide +kernel, by decide +kernel, hok, by decide +kernel, ?_⟩
  rintro ⟨x, hx, hname⟩
  obtain ⟨d, hd, -, -, -, hmade⟩ := reach_of_key wf hr (emptyEnvelope "")
  obtain rfl := hd (by decide)
  have hseen := (hmade hok).2.2.1.1 ⟨x, hx, by rw [hname]; decide +kernel⟩
  exact hseen.2 (by decide +kernel)

/-! ## Runs -/

theorem wellFormed_store (wf : fs.WellFormed) (e : Envelope) : (c.store fs e).1.WellFormed := by
  show (c.tryStore fs e).files.WellFormed
  cases hc : c.contains fs e with
  | true =>
    rw [tryStore_of_contains hc]
    exact wf
  | false =>
    obtain ⟨l, hl⟩ := exists_entriesAt c fs
    obtain ⟨d, home⟩ := exists_home wf c e.key
    obtain ⟨-, -, -, -, wf', -⟩ := tryStore_spec wf hl home hc
    exact wf'

theorem wellFormed_create (wf : fs.WellFormed) (root : String) (maxItems : Nat) :
    (create fs root maxItems).1.WellFormed := by
  have hmade := wf.makeDirectories root
  unfold create
  cases hm : fs.makeDirectories root with
  | mk fs' result =>
    rw [hm] at hmade
    cases result with
    | error fault => exact hmade
    | ok _ => exact hmade

/-- Removing entries where it is possible changes nothing but them. -/
theorem clear_spec (wf : fs.WellFormed) (hr : c.RootAt fs l) :
    (c.clear fs).WellFormed ∧ Confined (fun m => ∃ name, m = name :: l) fs (c.clear fs) := by
  have removeEach (entries : List Entry) (hn : ∀ x ∈ entries, Named x.name) (fs : FileSystem)
      (wf : fs.WellFormed) (hr : c.RootAt fs l) :
      let removed := entries.foldl (fun fs x => (fs.remove (c.pathOf x)).toOption.getD fs) fs
      removed.WellFormed ∧ Confined (fun m => ∃ name, m = name :: l) fs removed := by
    induction entries generalizing fs with
    | nil => exact ⟨wf, .refl _ fs⟩
    | cons x more ih =>
      have hmore := fun y hy => hn y (List.mem_cons_of_mem x hy)
      rw [List.foldl_cons]
      cases h : fs.remove (c.pathOf x) with
      | error fault => exact ih hmore fs wf hr
      | ok fs' =>
        have hc : Confined (fun m => ∃ name, m = name :: l) fs fs' := by
          refine (cleared_of_remove hr (hn x List.mem_cons_self) h).confined.mono ?_
          rintro m ⟨y, -, rfl⟩
          exact ⟨y.name, rfl⟩
        obtain ⟨wf', hc'⟩ := ih hmore fs' (wf.remove h) (hr.of_confined hc)
        exact ⟨wf', hc.trans hc'⟩
  exact removeEach _ (fun x hx => named_of_mem wf hr hx) fs wf hr

/-- The envelope of a step. -/
def Step.envelope? : Step → Option Envelope
  | .store e | .discard e => some e
  | .clear => none

/-- A step for a key without separators changes nothing but what is in the directory. -/
theorem Step.confined_apply (wf : fs.WellFormed) (hr : c.RootAt fs l) (step : Step)
    (hn : ∀ e ∈ step.envelope?, '/' ∉ e.key.toList) :
    (step.apply c fs).WellFormed ∧ Confined (fun m => ∃ name, m = name :: l) fs (step.apply c fs) := by
  cases step with
  | store e =>
    refine ⟨wellFormed_store wf e,
      ((hr.home wf (hn e rfl)).confined_store wf (.inl hr)).mono ?_⟩
    rintro m (⟨x, -, rfl⟩ | rfl | rfl)
    · exact ⟨x.name, rfl⟩
    · exact ⟨draftName (Path.lastPiece e.key), rfl⟩
    · exact ⟨entryName (Path.lastPiece e.key), rfl⟩
  | discard e =>
    refine ⟨wellFormed_discard wf e, (hr.home wf (hn e rfl)).confined_discard.mono ?_⟩
    rintro m rfl
    exact ⟨entryName (Path.lastPiece e.key), rfl⟩
  | clear => exact clear_spec wf hr

/-- **A cache stays in its directory.** Whatever envelopes are stored and discarded under keys without
separators, nothing changes but what is in the directory of the cache. -/
theorem confined_run {steps : List (Int × Step)} (wf : fs.WellFormed) (hr : c.RootAt fs l)
    (hn : ∀ x ∈ steps, ∀ e ∈ x.2.envelope?, '/' ∉ e.key.toList) :
    (c.run fs steps).WellFormed ∧ Confined (fun m => ∃ name, m = name :: l) fs (c.run fs steps) := by
  induction steps generalizing fs with
  | nil => exact ⟨wf, .refl _ fs⟩
  | cons x more ih =>
    obtain ⟨time, step⟩ := x
    have hclock := confined_clock (fun m => ∃ name, m = name :: l) fs time
    obtain ⟨wf', hc⟩ := Step.confined_apply (wf.of_clock time) (hr.of_confined hclock) step
      (hn _ List.mem_cons_self)
    obtain ⟨wf'', hc'⟩ := ih wf' ((hr.of_confined hclock).of_confined hc)
      fun y hy => hn y (List.mem_cons_of_mem _ hy)
    exact ⟨wf'', (hclock.trans hc).trans hc'⟩

end Courier.DiskCache
