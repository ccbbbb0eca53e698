import Courier.Proofs.FileSystem.Children

/-!
# What operations change

`Confined P fs fs'` says that all that changed is at the locations `P`, besides the times of the
directories that hold them, and that directories stayed where they were. Writing, removing and
renaming are confined to where their paths lead (`write_spec`, `remove_spec`, `rename_spec`).
-/

namespace Courier.FileSystem

variable {fs fs' fs'' : FileSystem} {l m : Location} {path source target : String}
  {bytes : Bytes} {n : Node} {P Q : Location → Prop}

/-! ## Stamps -/

theorem node?_stamp (fs : FileSystem) (m l : Location) :
    (fs.stamp m).node? l =
      if l = m ∧ l ≠ [] then (fs.node? l).map fun n => { n with modified := fs.clock }
      else fs.node? l := by
  unfold stamp
  by_cases hl : l = []
  · subst hl
    rw [if_neg fun h => h.2 rfl]
    split
    · split <;> rfl
    · rfl
  · cases hm : fs.node? m with
    | none =>
      by_cases h : l = m
      · subst h
        rw [if_pos ⟨rfl, hl⟩, hm]
        rfl
      · rw [if_neg fun h' => h h'.1]
    | some n =>
      by_cases h₀ : m = []
      · rw [if_neg fun h => hl (h.1.trans h₀)]
        simp only [h₀, if_true]
      · simp only [h₀, if_false]
        rw [node?_put hl]
        by_cases h : l = m
        · subst h
          rw [if_pos rfl, if_pos ⟨rfl, hl⟩, hm]
          rfl
        · rw [if_neg h, if_neg fun h' => h h'.1]

theorem content_stamp (fs : FileSystem) (m l : Location) :
    ((fs.stamp m).node? l).map Node.content = (fs.node? l).map Node.content := by
  rw [node?_stamp]
  split
  · rw [Option.map_map]
    rfl
  · rfl

theorem directoryAt_iff : fs.DirectoryAt l ↔ (fs.node? l).map Node.content = some .directory := by
  rw [Option.map_eq_some_iff]
  constructor
  · rintro ⟨modified, h⟩
    exact ⟨_, h, rfl⟩
  · rintro ⟨⟨content, modified⟩, h, rfl⟩
    exact ⟨modified, h⟩

theorem directoryAt_nil (fs : FileSystem) : fs.DirectoryAt [] := ⟨0, rfl⟩

theorem ne_nil_of_not_directoryAt (h : ¬ fs.DirectoryAt l) : l ≠ [] := by
  rintro rfl
  exact h (directoryAt_nil fs)

/-! ## Locations listed once -/

/-- No location is listed twice. -/
def Distinct (fs : FileSystem) : Prop := (fs.nodes.map Prod.fst).Nodup

theorem distinct_erase (h : fs.Distinct) (m : Location) : (fs.erase m).Distinct :=
  h.sublist (List.filter_sublist.map Prod.fst)

theorem distinct_put (h : fs.Distinct) (m : Location) (n : Node) : (fs.put m n).Distinct := by
  refine List.nodup_cons.2 ⟨fun hm => ?_, distinct_erase h m⟩
  obtain ⟨e, he, heq⟩ := List.mem_map.1 hm
  exact absurd heq (by simpa using (List.mem_filter.1 he).2)

theorem distinct_stamp (h : fs.Distinct) (m : Location) : (fs.stamp m).Distinct := by
  unfold stamp
  split
  · split
    · exact h
    · exact distinct_put h m _
  · exact h

/-! ## Confined changes -/

/-- All that changed is at some locations, besides the times of the directories that hold them. -/
structure Confined (P : Location → Prop) (fs fs' : FileSystem) : Prop where
  content : ∀ l, ¬ P l → (fs'.node? l).map Node.content = (fs.node? l).map Node.content
  node : ∀ l, ¬ P l → (∀ m, P m → l ≠ m.tail) → fs'.node? l = fs.node? l
  directory : ∀ l, fs'.DirectoryAt l ↔ fs.DirectoryAt l
  distinct : fs.Distinct → fs'.Distinct
  workingDirectory : fs'.workingDirectory = fs.workingDirectory

namespace Confined

theorem refl (P : Location → Prop) (fs : FileSystem) : Confined P fs fs :=
  ⟨fun _ _ => rfl, fun _ _ _ => rfl, fun _ => Iff.rfl, id, rfl⟩

theorem trans (h : Confined P fs fs') (h' : Confined P fs' fs'') : Confined P fs fs'' where
  content l hl := (h'.content l hl).trans (h.content l hl)
  node l hl ht := (h'.node l hl ht).trans (h.node l hl ht)
  directory l := (h'.directory l).trans (h.directory l)
  distinct := h'.distinct ∘ h.distinct
  workingDirectory := h'.workingDirectory.trans h.workingDirectory

/-- A change that is confined to some locations is confined to more of them. -/
theorem mono (h : Confined P fs fs') (hPQ : ∀ l, P l → Q l) : Confined Q fs fs' where
  content l hl := h.content l (mt (hPQ l) hl)
  node l hl ht := h.node l (mt (hPQ l) hl) fun m hm => ht m (hPQ m hm)
  directory := h.directory
  distinct := h.distinct
  workingDirectory := h.workingDirectory

theorem keeps (h : Confined P fs fs') : Keeps fs fs' :=
  ⟨fun l hl => (h.directory l).2 hl, h.workingDirectory⟩

theorem keeps_back (h : Confined P fs fs') : Keeps fs' fs :=
  ⟨fun l hl => (h.directory l).1 hl, h.workingDirectory.symm⟩

theorem missing (h : Confined P fs fs') (hl : fs.node? l = none) (hP : ¬ P l) :
    fs'.node? l = none := by
  have hcontent := h.content l hP
  rw [hl] at hcontent
  exact Option.map_eq_none_iff.1 hcontent

theorem locate_iff (h : Confined P fs fs') : fs'.locate path = .ok l ↔ fs.locate path = .ok l :=
  ⟨h.keeps_back.locate, h.keeps.locate⟩

end Confined

theorem confined_clock (P : Location → Prop) (fs : FileSystem) (time : Int) :
    Confined P fs { fs with clock := time } :=
  ⟨fun _ _ => rfl, fun _ _ _ => rfl, fun _ => Iff.rfl, id, rfl⟩

theorem confined_advance (P : Location → Prop) (fs : FileSystem) : Confined P fs fs.advance :=
  confined_clock P fs _

theorem confined_put (hm : ¬ fs.DirectoryAt m) (bytes : Bytes) (modified : Int) :
    Confined (· = m) fs (fs.put m ⟨.file bytes, modified⟩) := by
  have hm₀ := ne_nil_of_not_directoryAt hm
  have other (l) (hl : l ≠ m) : (fs.put m ⟨.file bytes, modified⟩).node? l = fs.node? l := by
    by_cases h₀ : l = []
    · subst h₀
      rfl
    · rw [node?_put h₀, if_neg hl]
  refine ⟨fun l hl => by rw [other l hl], fun l hl _ => other l hl, fun l => ?_,
    fun h => distinct_put h m _, rfl⟩
  by_cases hl : l = m
  · subst hl
    refine iff_of_false ?_ hm
    rintro ⟨time, h⟩
    rw [node?_put hm₀, if_pos rfl] at h
    cases h
  · rw [directoryAt_iff, directoryAt_iff, other l hl]

theorem confined_erase (hm : ¬ fs.DirectoryAt m) : Confined (· = m) fs (fs.erase m) := by
  have hm₀ := ne_nil_of_not_directoryAt hm
  have other (l) (hl : l ≠ m) : (fs.erase m).node? l = fs.node? l := by
    by_cases h₀ : l = []
    · subst h₀
      rfl
    · rw [node?_erase h₀, if_neg hl]
  refine ⟨fun l hl => by rw [other l hl], fun l hl _ => other l hl, fun l => ?_,
    fun h => distinct_erase h m, rfl⟩
  by_cases hl : l = m
  · subst hl
    refine iff_of_false ?_ hm
    rintro ⟨time, h⟩
    rw [node?_erase hm₀, if_pos rfl] at h
    cases h
  · rw [directoryAt_iff, directoryAt_iff, other l hl]

/-- The directory that holds a location may be stamped. -/
theorem confined_stamp (fs : FileSystem) (m : Location) : Confined (· = m) fs (fs.stamp m.tail) where
  content l _ := content_stamp fs m.tail l
  node l _ ht := by
    rw [node?_stamp, if_neg fun h => ht m rfl h.1]
  directory l := by rw [directoryAt_iff, directoryAt_iff, content_stamp]
  distinct h := distinct_stamp h m.tail
  workingDirectory := (keeps_stamp fs m.tail).workingDirectory

theorem tail_ne_self (h : m ≠ []) : m ≠ m.tail := by
  cases m with
  | nil => exact absurd rfl h
  | cons name d => exact List.cons_ne_self name d

theorem node?_stamp_tail (fs : FileSystem) (h : m ≠ []) : (fs.stamp m.tail).node? m = fs.node? m := by
  rw [node?_stamp, if_neg fun h' => tail_ne_self h h'.1]

/-! ## Operations -/

theorem write_spec (h : fs.write path bytes = .ok fs') :
    ∃ m, fs.locate path = .ok m ∧ ¬ fs.DirectoryAt m ∧
      (∃ time, fs'.node? m = some ⟨.file bytes, time⟩) ∧ Confined (· = m) fs fs' := by
  unfold FileSystem.write at h
  cases hl : fs.locate path with
  | error fault =>
    rw [hl] at h
    cases h
  | ok m =>
    simp only [hl, bind, Except.bind, pure, Except.pure] at h
    split_ifs at h
    refine ⟨m, rfl, ?_⟩
    have hdir : ¬ fs.DirectoryAt m := by
      rintro ⟨time, hm⟩
      rw [hm] at h
      cases h
    have hm₀ := ne_nil_of_not_directoryAt hdir
    have hdir' : ¬ fs.advance.DirectoryAt m := hdir
    have hput := (confined_advance (· = m) fs).trans (confined_put hdir' bytes fs.advance.clock)
    split at h
    · cases h
    · obtain rfl := Except.ok.inj h
      exact ⟨hdir, ⟨_, by rw [node?_put hm₀, if_pos rfl]⟩, hput⟩
    · obtain rfl := Except.ok.inj h
      refine ⟨hdir, ⟨fs.advance.clock, ?_⟩, hput.trans (confined_stamp _ m)⟩
      show ((fs.advance.put m _).stamp m.tail).node? m = _
      rw [node?_stamp_tail _ hm₀, node?_put hm₀, if_pos rfl]

theorem remove_spec (h : fs.remove path = .ok fs') :
    ∃ m bytes time, fs.locate path = .ok m ∧ fs.node? m = some ⟨.file bytes, time⟩ ∧
      fs'.node? m = none ∧ Confined (· = m) fs fs' := by
  unfold FileSystem.remove at h
  cases hf : fs.find path with
  | error fault =>
    rw [hf] at h
    cases h
  | ok found =>
    obtain ⟨m, content, time⟩ := found
    rw [hf] at h
    obtain ⟨hl, hm⟩ := find_eq_ok hf
    cases content with
    | directory => cases h
    | file bytes =>
      have hdir : ¬ fs.DirectoryAt m := by
        rintro ⟨time', hd⟩
        rw [hd] at hm
        cases hm
      have hdir' : ¬ fs.advance.DirectoryAt m := hdir
      have hm₀ := ne_nil_of_not_directoryAt hdir
      obtain rfl := Except.ok.inj h
      refine ⟨m, bytes, time, hl, hm, ?_, ((confined_advance (· = m) fs).trans
        (confined_erase hdir')).trans (confined_stamp _ m)⟩
      show ((fs.advance.erase m).stamp m.tail).node? m = none
      rw [node?_stamp_tail _ hm₀, node?_erase hm₀, if_pos rfl]

/-- Taking a file away from one location and placing it at another one. -/
theorem rename_apart {time : Int} (hl : l ≠ []) (hlm : l ≠ m)
    (hn : fs.node? l = some ⟨.file bytes, time⟩) (hm : ¬ fs.DirectoryAt m) :
    let moved := (((fs.changeAt l fun fs => fs.erase l).put m ⟨.file bytes, time⟩).stamp m.tail)
    moved.node? m = some ⟨.file bytes, time⟩ ∧ (l ≠ m → moved.node? l = none) ∧
      Confined (fun x => x = l ∨ x = m) fs moved := by
  intro moved
  have hdir : ¬ fs.DirectoryAt l := by
    rintro ⟨time', hd⟩
    rw [hd] at hn
    cases hn
  have hdir' : ¬ fs.advance.DirectoryAt l := hdir
  have hm₀ := ne_nil_of_not_directoryAt hm
  have herase : Confined (· = l) fs (fs.changeAt l fun fs => fs.erase l) :=
    ((confined_advance (· = l) fs).trans (confined_erase hdir')).trans (confined_stamp _ l)
  have hput := confined_put (mt (herase.directory m).1 hm) bytes time
  refine ⟨?_, fun _ => ?_, (herase.mono fun _ => .inl).trans
    ((hput.trans (confined_stamp _ m)).mono fun _ => .inr)⟩
  · rw [node?_stamp_tail _ hm₀, node?_put hm₀, if_pos rfl]
  · -- neither placing the file nor the stamps bring the old one back
    have hgone : (fs.changeAt l fun fs => fs.erase l).node? l = none := by
      show ((fs.advance.erase l).stamp l.tail).node? l = none
      rw [node?_stamp_tail _ hl, node?_erase hl, if_pos rfl]
    have hcontent := content_stamp ((fs.changeAt l fun fs => fs.erase l).put m ⟨.file bytes, time⟩)
      m.tail l
    rw [node?_put hl, if_neg hlm, hgone] at hcontent
    exact Option.map_eq_none_iff.1 hcontent

/-- A renamed file is found where its new path leads, as it was, and nothing is left where the old
one leads. -/
theorem rename_spec (h : fs.rename source target = .ok fs') :
    ∃ l m bytes time, fs.locate source = .ok l ∧ fs.locate target = .ok m ∧
      fs.node? l = some ⟨.file bytes, time⟩ ∧ ¬ fs.DirectoryAt m ∧
      fs'.node? m = some ⟨.file bytes, time⟩ ∧ (l ≠ m → fs'.node? l = none) ∧
      Confined (fun x => x = l ∨ x = m) fs fs' := by
  unfold FileSystem.rename at h
  cases hf : fs.find source with
  | error fault =>
    rw [hf] at h
    cases h
  | ok found =>
    obtain ⟨l, content, time⟩ := found
    obtain ⟨hl, hn⟩ := find_eq_ok hf
    cases ht : fs.locate target with
    | error fault =>
      rw [hf, ht] at h
      cases h
    | ok m =>
      simp only [hf, ht, bind, Except.bind, pure, Except.pure] at h
      cases content with
      | directory =>
        rw [if_pos rfl] at h
        cases h
      | file bytes =>
        rw [if_neg (by simp)] at h
        by_cases hsep : Path.endsInSeparator target = true
        · rw [if_pos hsep] at h
          cases h
        rw [if_neg hsep] at h
        refine ⟨l, m, bytes, time, hl, rfl, hn, ?_⟩
        have hl₀ : l ≠ [] := by
          rintro rfl
          cases hn
        split at h
        · cases h
        next hm =>
          have hm : ¬ fs.DirectoryAt m := fun ⟨time', hd⟩ => hm time' hd
          refine ⟨hm, ?_⟩
          split_ifs at h with hlm
          · subst hlm
            obtain rfl := Except.ok.inj h
            exact ⟨hn, fun hne => absurd rfl hne, .refl _ fs⟩
          · obtain rfl := Except.ok.inj h
            exact rename_apart hl₀ hlm hn hm

/-! ## Files that are there -/

/-- Whether a path leads to a file. -/
def isFile (fs : FileSystem) (path : String) : Bool :=
  match fs.find path with
  | .ok (_, ⟨.file _, _⟩) => true
  | _ => false

theorem isFile_iff : fs.isFile path = true ↔ ∃ m bytes time, fs.locate path = .ok m ∧
    fs.node? m = some ⟨.file bytes, time⟩ ∧ Path.endsInSeparator path = false := by
  unfold isFile
  constructor
  · intro h
    split at h
    next m bytes time hf =>
      obtain ⟨hl, hn, hs⟩ := find_eq_ok_iff.1 hf
      exact ⟨m, bytes, time, hl, hn, Bool.eq_false_iff.2 fun h => absurd (hs h) (by simp)⟩
    · cases h
  · rintro ⟨m, bytes, time, hl, hn, hs⟩
    rw [find_eq_ok_iff.2 ⟨hl, hn, fun h => by rw [hs] at h; cases h⟩]

theorem read_eq_ok_iff : fs.read path = .ok bytes ↔ ∃ m, fs.locate path = .ok m ∧
    (fs.node? m).map Node.content = some (.file bytes) ∧ Path.endsInSeparator path = false := by
  unfold FileSystem.read
  constructor
  · intro h
    cases hf : fs.find path with
    | error fault =>
      rw [hf] at h
      cases h
    | ok found =>
      obtain ⟨m, content, time⟩ := found
      rw [hf] at h
      cases content with
      | directory => cases h
      | file bytes' =>
        obtain rfl : bytes' = bytes := Except.ok.inj h
        obtain ⟨hl, hn, hs⟩ := find_eq_ok_iff.1 hf
        exact ⟨m, hl, by rw [hn]; rfl, Bool.eq_false_iff.2 fun h => absurd (hs h) (by simp)⟩
  · rintro ⟨m, hl, hm, hs⟩
    obtain ⟨⟨content, time⟩, hn, rfl⟩ := Option.map_eq_some_iff.1 hm
    rw [find_eq_ok_iff.2 ⟨hl, hn, fun h => by rw [hs] at h; cases h⟩]
    rfl

/-- A file is not written behind a separator. -/
theorem not_endsInSeparator_of_write (h : fs.write path bytes = .ok fs') :
    Path.endsInSeparator path = false := by
  obtain ⟨m, hl, -⟩ := write_spec h
  unfold FileSystem.write at h
  simp only [hl, bind, Except.bind] at h
  split_ifs at h with hs
  exact Bool.eq_false_iff.2 hs

theorem read_of_write (h : fs.write path bytes = .ok fs') : fs'.read path = .ok bytes := by
  obtain ⟨m, hl, -, ⟨time, hm⟩, hc⟩ := write_spec h
  exact read_eq_ok_iff.2 ⟨m, hc.locate_iff.2 hl, by rw [hm]; rfl, not_endsInSeparator_of_write h⟩

theorem not_directoryAt_of_isDirectory (h : fs.isDirectory path = false)
    (hl : fs.locate path = .ok m) : ¬ fs.DirectoryAt m := by
  intro hd
  obtain ⟨time, hf⟩ := find_of_directory hl hd
  unfold isDirectory at h
  rw [hf] at h
  cases h

theorem contains_iff (hs : Path.endsInSeparator path = false) :
    fs.contains path = true ↔ ∃ m n, fs.locate path = .ok m ∧ fs.node? m = some n := by
  unfold FileSystem.contains
  constructor
  · intro h
    cases hf : fs.find path with
    | error fault =>
      rw [hf] at h
      cases h
    | ok found =>
      obtain ⟨hl, hn, -⟩ := find_eq_ok_iff.1 hf
      exact ⟨_, _, hl, hn⟩
  · rintro ⟨m, n, hl, hn⟩
    rw [find_eq_ok_iff.2 ⟨hl, hn, fun h => by rw [hs] at h; cases h⟩]

theorem contains_of_write (h : fs.write path bytes = .ok fs') : fs'.contains path = true := by
  obtain ⟨m, hl, -, ⟨time, hm⟩, hc⟩ := write_spec h
  exact (contains_iff (not_endsInSeparator_of_write h)).2 ⟨m, _, hc.locate_iff.2 hl, hm⟩

theorem readText_of_write {text : String} (h : fs.write path (Bytes.ofText text) = .ok fs') :
    fs'.readText path = .ok text := by
  unfold FileSystem.readText
  rw [read_of_write h]
  simp [bind, Except.bind, pure, Except.pure]

theorem node?_eq_none_of_not_contains (h : fs.contains path = false)
    (hl : fs.locate path = .ok m) (hs : Path.endsInSeparator path = false) : fs.node? m = none := by
  cases hm : fs.node? m with
  | none => rfl
  | some n =>
    rw [(contains_iff hs).2 ⟨m, n, hl, hm⟩] at h
    cases h

theorem exists_remove (h : fs.isFile path = true) : ∃ fs', fs.remove path = .ok fs' := by
  unfold isFile at h
  unfold FileSystem.remove
  split at h
  next m bytes modified hf =>
    rw [hf]
    exact ⟨_, rfl⟩
  · cases h

theorem Confined.isFile (hc : Confined P fs fs') (h : fs.isFile path = true)
    (hP : ∀ m, fs.locate path = .ok m → ¬ P m) : fs'.isFile path = true := by
  obtain ⟨m, bytes, time, hl, hn, hs⟩ := isFile_iff.1 h
  have hcontent := hc.content m (hP m hl)
  rw [hn] at hcontent
  obtain ⟨⟨content, time'⟩, hn', rfl⟩ := Option.map_eq_some_iff.1 hcontent
  exact isFile_iff.2 ⟨m, bytes, time', hc.locate_iff.2 hl, hn', hs⟩

/-- What a path leads to is found as before if the change was confined to other places. -/
theorem Confined.find_iff (hc : Confined P fs fs')
    (h : ∀ m, fs.locate path = .ok m → fs'.node? m = fs.node? m) :
    fs'.find path = .ok (m, n) ↔ fs.find path = .ok (m, n) := by
  rw [find_eq_ok_iff, find_eq_ok_iff, hc.locate_iff]
  refine and_congr_right fun hl => ?_
  rw [h m hl]

theorem exists_write (hl : fs.locate path = .ok m) (hm : ¬ fs.DirectoryAt m)
    (hs : Path.endsInSeparator path = false) (bytes : Bytes) :
    ∃ fs', fs.write path bytes = .ok fs' := by
  unfold FileSystem.write
  simp only [hl, hs, bind, Except.bind, pure, Except.pure]
  cases hn : fs.node? m with
  | none => exact ⟨_, rfl⟩
  | some n =>
    obtain ⟨content, modified⟩ := n
    cases content with
    | directory => exact absurd ⟨modified, hn⟩ hm
    | file old => exact ⟨_, rfl⟩

/-- A file can be given a name that no directory bears. -/
theorem exists_rename (hf : fs.isFile source = true) (hl : fs.locate target = .ok m)
    (hm : ¬ fs.DirectoryAt m) (hs : Path.endsInSeparator target = false) :
    ∃ fs', fs.rename source target = .ok fs' := by
  unfold isFile at hf
  split at hf
  next l bytes modified hfind =>
    unfold FileSystem.rename
    simp only [hfind, hl, hs, bind, Except.bind, pure, Except.pure]
    cases hn : fs.node? m with
    | none =>
      simp only [reduceCtorEq, if_false]
      split
      · exact ⟨_, rfl⟩
      · exact ⟨_, rfl⟩
    | some n =>
      obtain ⟨content, time⟩ := n
      cases content with
      | directory => exact absurd ⟨time, hn⟩ hm
      | file old =>
        simp only [reduceCtorEq, if_false]
        split
        · exact ⟨_, rfl⟩
        · exact ⟨_, rfl⟩
  · cases hf

end Courier.FileSystem
