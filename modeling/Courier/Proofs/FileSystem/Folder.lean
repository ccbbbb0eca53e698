import Courier.Proofs.FileSystem.Children

/-!
# Folders

A folder is a directory in which there are only files. `Folder fs path l files` says that `path`
leads to such a directory at `l` and which files are in it. Writing, renaming and removing a file by
its path succeed and do to the list of files what they say (`Folder.write`, `Folder.rename`,
`Folder.remove`), and reading gives what is in the list (`Folder.read`, `Folder.read_missing`). What
is found under other names stays, with its time (`Folder.find_of_write`, `Folder.find_of_rename`,
`Folder.find_of_remove`).
-/

namespace Courier.FileSystem

variable {fs fs' : FileSystem} {l m : Location} {path name : String} {n : Node}

/-! ## Folders -/

/-- A path leads to the directory at `l`, and in it there are these files and nothing else. -/
structure Folder (fs : FileSystem) (path : String) (l : Location) (files : List (String × Bytes)) :
    Prop where
  located : fs.locate path = .ok l
  directory : fs.DirectoryAt l
  children : ((fs.children l).map fun c => (c.1, c.2.content)) =
    files.map fun f => (f.1, Content.file f.2)
  nodup : (files.map Prod.fst).Nodup

/-- Files without the one of a name. -/
def without (files : List (String × Bytes)) (name : String) : List (String × Bytes) :=
  files.filter fun f => f.1 ≠ name

theorem nodup_without {files : List (String × Bytes)} (h : (files.map Prod.fst).Nodup)
    (name : String) : ((without files name).map Prod.fst).Nodup :=
  h.sublist (List.filter_sublist.map _)

theorem not_mem_without (files : List (String × Bytes)) (name : String) :
    name ∉ (without files name).map Prod.fst := by
  intro h
  obtain ⟨f, hf, hn⟩ := List.mem_map.1 h
  have := (List.mem_filter.1 hf).2
  rw [hn] at this
  simp at this

theorem lookup_map_snd {α β : Type} (g : α → β) (xs : List (String × α)) (name : String) :
    (xs.map fun c => (c.1, g c.2)).lookup name = (xs.lookup name).map g := by
  induction xs with
  | nil => rfl
  | cons x rest ih =>
    rw [List.map_cons, List.lookup_cons, List.lookup_cons, ih]
    cases name == x.1 <;> rfl

namespace Folder

variable {files : List (String × Bytes)} {bytes : Bytes}

theorem node? (hf : Folder fs path l files) (name : String) :
    (fs.node? (name :: l)).map Node.content = (files.lookup name).map Content.file := by
  rw [node?_cons, ← lookup_map_snd, ← lookup_map_snd, hf.children]

theorem exists_node (hf : Folder fs path l files) (h : files.lookup name = some bytes) :
    ∃ modified, fs.node? (name :: l) = some ⟨.file bytes, modified⟩ := by
  have hn := hf.node? name
  rw [h] at hn
  obtain ⟨⟨content, modified⟩, hm, hc⟩ := Option.map_eq_some_iff.1 hn
  cases hc
  exact ⟨modified, hm⟩

theorem node?_eq_none (hf : Folder fs path l files) (h : files.lookup name = none) :
    fs.node? (name :: l) = none := by
  have hn := hf.node? name
  rw [h] at hn
  exact Option.map_eq_none_iff.1 hn

theorem not_directoryAt (hf : Folder fs path l files) (name : String) :
    ¬ fs.DirectoryAt (name :: l) := by
  rintro ⟨modified, hd⟩
  have hn := hf.node? name
  rw [hd] at hn
  obtain ⟨bytes, -, hc⟩ := Option.map_eq_some_iff.1 hn.symm
  cases hc

theorem of_keeps {files' : List (String × Bytes)} (hf : Folder fs path l files) (hk : Keeps fs fs')
    (hc : ((fs'.children l).map fun c => (c.1, c.2.content)) =
      files'.map fun f => (f.1, Content.file f.2))
    (hn : (files'.map Prod.fst).Nodup) : Folder fs' path l files' :=
  ⟨hk.locate hf.located, hk.directory l hf.directory, hc, hn⟩

theorem locate_join (hf : Folder fs path l files) (hn : Fits path name) :
    fs.locate (Path.join path name) = .ok (name :: l) :=
  FileSystem.locate_join hf.located hf.directory hn

theorem endsInSeparator_join (hf : Folder fs path l files) (hn : Fits path name) :
    Path.endsInSeparator (Path.join path name) = false := by
  rw [Path.join_eq (of_locate hf.located).2 hn.plain.separator]
  exact Path.endsInSeparator_behind hn.plain.nonempty hn.plain.separator

theorem children_without (hf : Folder fs path l files) (name : String) :
    (((fs.children l).filter fun c => c.1 ≠ name).map fun c => (c.1, c.2.content)) =
      (without files name).map fun f => (f.1, Content.file f.2) := by
  have h := congrArg (List.filter fun c => c.1 ≠ name) hf.children
  rw [List.filter_map, List.filter_map] at h
  exact h

theorem put (hf : Folder fs path l files) (name : String) (bytes : Bytes) (modified : Int) :
    Folder (fs.put (name :: l) ⟨.file bytes, modified⟩) path l ((name, bytes) :: without files name) := by
  refine hf.of_keeps (keeps_put (hf.not_directoryAt name) _) ?_ ?_
  · rw [children_put, List.map_cons, hf.children_without]
    rfl
  · exact List.nodup_cons.2 ⟨not_mem_without files name, nodup_without hf.nodup name⟩

theorem erase (hf : Folder fs path l files) (name : String) :
    Folder (fs.erase (name :: l)) path l (without files name) := by
  refine hf.of_keeps (keeps_erase (hf.not_directoryAt name)) ?_ (nodup_without hf.nodup name)
  rw [children_erase, hf.children_without]

theorem advance (hf : Folder fs path l files) : Folder fs.advance path l files :=
  hf.of_keeps (keeps_advance fs) hf.children hf.nodup

theorem stamp (hf : Folder fs path l files) : Folder (fs.stamp l) path l files :=
  hf.of_keeps (keeps_stamp fs l) (by rw [children_stamp]; exact hf.children) hf.nodup

theorem of_list_nil (h : fs.list path = .ok []) : ∃ l, Folder fs path l [] := by
  obtain ⟨l, hl, hd, hc⟩ := exists_directory_of_list h
  exact ⟨l, hl, hd, by rw [← hc]; rfl, List.nodup_nil⟩

/-! ## Operations -/

/-- What is found under a name depends on what is listed under it. -/
theorem find_eq (hf : Folder fs path l files) (hn : Fits path name) :
    fs.find (Path.join path name) =
      match (fs.children l).lookup name with
      | some n => .ok (name :: l, n)
      | none => .error .notFound := by
  have hnode := hf.node? name
  rw [node?_cons] at hnode
  unfold FileSystem.find
  cases h : (fs.children l).lookup name with
  | none => simp [hf.locate_join hn, node?_cons, h, bind, Except.bind]
  | some n =>
    rw [h] at hnode
    obtain ⟨bytes, -, hc⟩ := Option.map_eq_some_iff.1 hnode.symm
    obtain ⟨content, modified⟩ := n
    obtain rfl : Content.file bytes = content := hc
    simp [hf.locate_join hn, node?_cons, h, hf.endsInSeparator_join hn, bind, Except.bind]

theorem find (hf : Folder fs path l files) (hn : Fits path name)
    (h : files.lookup name = some bytes) :
    ∃ modified, fs.find (Path.join path name) = .ok (name :: l, ⟨.file bytes, modified⟩) := by
  obtain ⟨modified, hm⟩ := hf.exists_node h
  exact ⟨modified, by rw [hf.find_eq hn, ← node?_cons, hm]⟩

theorem find_missing (hf : Folder fs path l files) (hn : Fits path name)
    (h : files.lookup name = none) : fs.find (Path.join path name) = .error .notFound := by
  rw [hf.find_eq hn, ← node?_cons, hf.node?_eq_none h]

theorem read (hf : Folder fs path l files) (hn : Fits path name)
    (h : files.lookup name = some bytes) : fs.read (Path.join path name) = .ok bytes := by
  obtain ⟨modified, hm⟩ := hf.find hn h
  unfold FileSystem.read
  rw [hm]
  rfl

theorem read_missing (hf : Folder fs path l files) (hn : Fits path name)
    (h : files.lookup name = none) : fs.read (Path.join path name) = .error .notFound := by
  unfold FileSystem.read
  rw [hf.find_missing hn h]
  rfl

theorem contains (hf : Folder fs path l files) (hn : Fits path name) :
    fs.contains (Path.join path name) = (files.lookup name).isSome := by
  unfold FileSystem.contains
  cases h : files.lookup name with
  | none => rw [hf.find_missing hn h]; rfl
  | some bytes =>
    obtain ⟨modified, hm⟩ := hf.find hn h
    rw [hm]
    rfl

theorem list_eq (hf : Folder fs path l files) : fs.list path = .ok (fs.children l) :=
  list_of_directory hf.located hf.directory

theorem map_fst_children (hf : Folder fs path l files) :
    (fs.children l).map Prod.fst = files.map Prod.fst := by
  have h := congrArg (List.map Prod.fst) hf.children
  rw [List.map_map, List.map_map] at h
  exact h

/-- The names in a folder are those of its files. -/
theorem list (hf : Folder fs path l files) :
    ∃ children, fs.list path = .ok children ∧ children.map Prod.fst = files.map Prod.fst :=
  ⟨fs.children l, hf.list_eq, hf.map_fst_children⟩

/-- Only a new name changes the directory itself. -/
theorem write_eq (hf : Folder fs path l files) (hn : Fits path name) (bytes : Bytes) :
    let written := fs.advance.put (name :: l) ⟨.file bytes, fs.advance.clock⟩
    fs.write (Path.join path name) bytes = .ok written ∨
      fs.write (Path.join path name) bytes = .ok (written.stamp l) := by
  intro written
  unfold FileSystem.write
  cases h : files.lookup name with
  | none =>
    right
    simp [hf.locate_join hn, hf.endsInSeparator_join hn, hf.node?_eq_none h, bind, Except.bind, pure,
      Except.pure, changeAt, written]
  | some old =>
    left
    obtain ⟨modified, hm⟩ := hf.exists_node h
    simp [hf.locate_join hn, hf.endsInSeparator_join hn, hm, bind, Except.bind, pure, Except.pure,
      written]

theorem write (hf : Folder fs path l files) (hn : Fits path name) (bytes : Bytes) :
    ∃ fs', fs.write (Path.join path name) bytes = .ok fs' ∧
      Folder fs' path l ((name, bytes) :: without files name) := by
  have hput := hf.advance.put name bytes fs.advance.clock
  rcases hf.write_eq hn bytes with hw | hw
  · exact ⟨_, hw, hput⟩
  · exact ⟨_, hw, hput.stamp⟩

theorem remove (hf : Folder fs path l files) (hn : Fits path name)
    (h : files.lookup name = some bytes) :
    ∃ fs', fs.remove (Path.join path name) = .ok fs' ∧ Folder fs' path l (without files name) := by
  obtain ⟨modified, hm⟩ := hf.find hn h
  refine ⟨_, ?_, (hf.advance.erase name).stamp⟩
  unfold FileSystem.remove
  rw [hm]
  rfl

/-- Removing a file leaves the others as they were, also the times at which they were modified. -/
theorem children_of_remove (hf : Folder fs path l files) (hn : Fits path name)
    (h : files.lookup name = some bytes)
    (hr : fs.remove (Path.join path name) = .ok fs') :
    fs'.children l = (fs.children l).filter fun c => c.1 ≠ name := by
  obtain ⟨modified, hm⟩ := hf.find hn h
  unfold FileSystem.remove at hr
  rw [hm] at hr
  obtain rfl := Except.ok.inj hr
  show ((fs.advance.erase (name :: l)).stamp l).children l = _
  rw [children_stamp, children_erase]
  rfl

theorem remove_missing (hf : Folder fs path l files) (hn : Fits path name)
    (h : files.lookup name = none) : fs.remove (Path.join path name) = .error .notFound := by
  unfold FileSystem.remove
  rw [hf.find_missing hn h]
  rfl

theorem rename_eq (hf : Folder fs path l files) {source target : String} (hs : Fits path source)
    (ht : Fits path target) (hne : source ≠ target) (h : files.lookup source = some bytes) :
    ∃ modified, fs.node? (source :: l) = some ⟨.file bytes, modified⟩ ∧
      fs.rename (Path.join path source) (Path.join path target) =
        .ok ((((fs.advance.erase (source :: l)).stamp l).put (target :: l)
          ⟨.file bytes, modified⟩).stamp l) := by
  obtain ⟨modified, hnode⟩ := hf.exists_node h
  have hm : fs.find (Path.join path source) = .ok (source :: l, ⟨.file bytes, modified⟩) := by
    rw [hf.find_eq hs, ← node?_cons, hnode]
  refine ⟨modified, hnode, ?_⟩
  unfold FileSystem.rename
  rw [hm]
  have hd := hf.not_directoryAt target
  cases hnode : fs.node? (target :: l) with
  | none =>
    simp [hf.locate_join ht, hf.endsInSeparator_join ht, hnode, hne, bind, Except.bind, pure,
      Except.pure, changeAt]
  | some n =>
    obtain ⟨content, time⟩ := n
    cases content with
    | directory => exact absurd ⟨time, hnode⟩ hd
    | file old =>
      simp [hf.locate_join ht, hf.endsInSeparator_join ht, hnode, hne, bind, Except.bind, pure,
        Except.pure, changeAt]

/-- A file is given another name, in place of one that bears it. -/
theorem rename (hf : Folder fs path l files) {source target : String} (hs : Fits path source)
    (ht : Fits path target) (hne : source ≠ target) (h : files.lookup source = some bytes) :
    ∃ fs', fs.rename (Path.join path source) (Path.join path target) = .ok fs' ∧
      Folder fs' path l ((target, bytes) :: without (without files source) target) := by
  obtain ⟨modified, -, hr⟩ := hf.rename_eq hs ht hne h
  exact ⟨_, hr, ((hf.advance.erase source).stamp.put target bytes modified).stamp⟩

/-- A directory that is there does not have to be made. -/
theorem makeDirectories (hf : Folder fs path l files) : fs.makeDirectories path = (fs, .ok ()) := by
  obtain ⟨modified, hd⟩ := find_of_directory hf.located hf.directory
  have hmake : fs.makeDirectory path = .error .alreadyExists := by
    obtain ⟨modified, hd⟩ := hf.directory
    unfold FileSystem.makeDirectory
    simp [hf.located, hd, bind, Except.bind]
  have hensure : fs.ensureDirectory path = (fs, .ok ()) := by
    unfold FileSystem.ensureDirectory FileSystem.isDirectory
    rw [hmake]
    simp [hd]
  unfold FileSystem.makeDirectories makeDirectoriesUpTo
  rw [if_neg (of_locate hf.located).2, hmake]
  exact hensure

/-! ## What is left alone -/

theorem find_of_remove (hf : Folder fs path l files) (hn : Fits path name)
    (h : files.lookup name = some bytes) (hr : fs.remove (Path.join path name) = .ok fs')
    {other : String} (ho : Fits path other) (hne : other ≠ name) :
    fs'.find (Path.join path other) = fs.find (Path.join path other) := by
  obtain ⟨fs'', hr', hf'⟩ := hf.remove hn h
  obtain rfl : fs' = fs'' := Except.ok.inj (hr.symm.trans hr')
  rw [hf.find_eq ho, hf'.find_eq ho, hf.children_of_remove hn h hr, lookup_filter_ne hne]

theorem children_of_write (hf : Folder fs path l files) (hn : Fits path name)
    (hw : fs.write (Path.join path name) bytes = .ok fs') :
    fs'.clock = fs.clock + tick ∧ fs'.children l =
      (name, ⟨.file bytes, fs.clock + tick⟩) :: (fs.children l).filter fun c => c.1 ≠ name := by
  have hc := children_put fs.advance l name ⟨.file bytes, fs.advance.clock⟩
  rcases hf.write_eq hn bytes with heq | heq
  · obtain rfl := Except.ok.inj (heq.symm.trans hw)
    exact ⟨rfl, hc⟩
  · obtain rfl := Except.ok.inj (heq.symm.trans hw)
    exact ⟨clock_stamp _ l, (children_stamp _ l).trans hc⟩

theorem find_of_write (hf : Folder fs path l files) (hn : Fits path name)
    (hw : fs.write (Path.join path name) bytes = .ok fs') {other : String} (ho : Fits path other)
    (hne : other ≠ name) : fs'.find (Path.join path other) = fs.find (Path.join path other) := by
  obtain ⟨fs'', hw', hf'⟩ := hf.write hn bytes
  obtain rfl : fs' = fs'' := Except.ok.inj (hw.symm.trans hw')
  obtain ⟨-, hc⟩ := hf.children_of_write hn hw
  have hne' : (other == name) = false := by simpa using hne
  rw [hf.find_eq ho, hf'.find_eq ho, hc, List.lookup_cons, hne', lookup_filter_ne hne]

/-- A file that is renamed is as old as before, and the other files are as they were. -/
theorem children_of_rename (hf : Folder fs path l files) {source target : String}
    (hs : Fits path source) (ht : Fits path target) (hne : source ≠ target)
    (h : files.lookup source = some bytes)
    (hr : fs.rename (Path.join path source) (Path.join path target) = .ok fs') :
    fs'.clock = fs.clock + tick ∧ ∃ n, (fs.children l).lookup source = some n ∧ fs'.children l =
      (target, n) :: ((fs.children l).filter fun c => c.1 ≠ source).filter fun c => c.1 ≠ target := by
  obtain ⟨modified, hm, heq⟩ := hf.rename_eq hs ht hne h
  rw [heq] at hr
  obtain rfl := Except.ok.inj hr
  refine ⟨?_, ⟨.file bytes, modified⟩, ?_, ?_⟩
  · rw [clock_stamp]
    exact clock_stamp _ l
  · rw [← node?_cons]
    exact hm
  · rw [children_stamp, children_put, children_stamp, children_erase]
    rfl

theorem find_of_rename (hf : Folder fs path l files) {source target : String}
    (hs : Fits path source) (ht : Fits path target) (hne : source ≠ target)
    (h : files.lookup source = some bytes)
    (hr : fs.rename (Path.join path source) (Path.join path target) = .ok fs') {other : String}
    (ho : Fits path other) (hos : other ≠ source) (hot : other ≠ target) :
    fs'.find (Path.join path other) = fs.find (Path.join path other) := by
  obtain ⟨fs'', hr', hf'⟩ := hf.rename hs ht hne h
  obtain rfl : fs' = fs'' := Except.ok.inj (hr.symm.trans hr')
  obtain ⟨-, n, -, hc⟩ := hf.children_of_rename hs ht hne h hr
  have hne' : (other == target) = false := by simpa using hot
  rw [hf.find_eq ho, hf'.find_eq ho, hc, List.lookup_cons, hne', lookup_filter_ne hot,
    lookup_filter_ne hos]

end Folder
end Courier.FileSystem
