import Courier.FileSystem.Operations
import Courier.Proofs.Path

/-!
# Where paths lead

A path of a name behind a stem leads to that name in the directory to which the stem leads
(`FileSystem.locate_behind`). `Keeps` says that whatever is a directory stays one; then every path
leads to where it led (`Keeps.locate`). `Named` are the names that a file can have, and
`FileSystem.locate_join_eq` says where the path of one of them in a directory leads, by nothing but
its length and the directory.
-/

namespace Courier.FileSystem

variable {fs fs' : FileSystem} {l m : Location} {path name : String} {stem : List Char}

/-! ## Directories stay -/

/-- A directory is at this location. -/
def DirectoryAt (fs : FileSystem) (l : Location) : Prop :=
  ∃ modified, fs.node? l = some ⟨.directory, modified⟩

/-- Whatever is a directory stays one. -/
structure Keeps (fs fs' : FileSystem) : Prop where
  directory : ∀ l, fs.DirectoryAt l → fs'.DirectoryAt l
  workingDirectory : fs'.workingDirectory = fs.workingDirectory

theorem Keeps.trans {fs'' : FileSystem} (h : Keeps fs fs') (h' : Keeps fs' fs'') : Keeps fs fs'' :=
  ⟨fun l hl => h'.directory l (h.directory l hl), h'.workingDirectory.trans h.workingDirectory⟩

theorem enter_of_directory (hd : fs.DirectoryAt l) (name : String) :
    fs.enter l name =
      if name = "." then .ok l
      else if name = ".." then .ok l.tail
      else if maxName < name.utf8ByteSize then .error .nameTooLong
      else .ok (name :: l) := by
  obtain ⟨modified, hd⟩ := hd
  simp [enter, hd]

theorem directoryAt_of_enter (h : fs.enter l name = .ok m) : fs.DirectoryAt l := by
  unfold enter at h
  split at h
  · cases h
  · cases h
  next modified hd => exact ⟨modified, hd⟩

theorem Keeps.enter (hk : Keeps fs fs') (h : fs.enter l name = .ok m) : fs'.enter l name = .ok m := by
  have hd := directoryAt_of_enter h
  rw [enter_of_directory hd] at h
  rw [enter_of_directory (hk.directory l hd)]
  exact h

theorem Keeps.foldlM_enter (hk : Keeps fs fs') {names : List String}
    (h : names.foldlM fs.enter l = .ok m) : names.foldlM fs'.enter l = .ok m := by
  induction names generalizing l with
  | nil => exact h
  | cons name more ih =>
    rw [List.foldlM_cons] at h ⊢
    cases he : fs.enter l name with
    | error fault =>
      rw [he] at h
      cases h
    | ok l' =>
      rw [he] at h
      rw [hk.enter he]
      exact ih h

/-- What a path leads to does not depend on what files there are. -/
theorem Keeps.locate (hk : Keeps fs fs') (h : fs.locate path = .ok l) : fs'.locate path = .ok l := by
  unfold FileSystem.locate at h ⊢
  rw [hk.workingDirectory]
  split_ifs at h ⊢
  all_goals exact hk.foldlM_enter h

theorem of_locate (h : fs.locate path = .ok l) : '\x00' ∉ path.toList ∧ path ≠ "" := by
  unfold FileSystem.locate at h
  split_ifs at h with hn he
  all_goals exact ⟨hn, he⟩

/-! ## Names behind a stem -/

/-- Follow the names of a stem. -/
def walk (fs : FileSystem) (stem : List Char) : Except FileFault Location :=
  (Path.names (String.ofList stem)).foldlM fs.enter
    (if Path.isAbsolute (String.ofList stem) then [] else fs.workingDirectory)

/-- The last name of a path is looked up in the directory to which the stem leads. -/
theorem locate_behind (hs : Path.IsStem stem) (h₀ : name ≠ "") (hn : '/' ∉ name.toList) :
    fs.locate (Path.behind stem name) =
      if '\x00' ∈ stem ++ name.toList then .error .nulInPath
      else if pathBound ≤ (Path.behind stem name).utf8ByteSize then .error .nameTooLong
      else fs.walk stem >>= fun d => fs.enter d name := by
  have hne : Path.behind stem name ≠ "" := by
    intro h
    have hl := congrArg String.toList h
    rw [Path.toList_behind] at hl
    exact Path.toList_ne_nil h₀ (List.append_eq_nil_iff.1 hl).2
  unfold FileSystem.locate walk
  rw [Path.toList_behind, if_neg hne, Path.names_behind hs h₀ hn, Path.isAbsolute_behind stem hn,
    List.foldlM_append]
  simp only [List.foldlM_cons, List.foldlM_nil, bind_pure]

theorem exists_enter_of_locate (hs : Path.IsStem stem) (h₀ : name ≠ "") (hn : '/' ∉ name.toList)
    (h : fs.locate (Path.behind stem name) = .ok m) :
    '\x00' ∉ name.toList ∧ ∃ d, fs.walk stem = .ok d ∧ fs.enter d name = .ok m := by
  rw [locate_behind hs h₀ hn] at h
  split_ifs at h with hnul hlong
  cases hw : fs.walk stem with
  | error fault =>
    rw [hw] at h
    cases h
  | ok d =>
    rw [hw] at h
    exact ⟨fun hm => hnul (List.mem_append_right _ hm), d, rfl, h⟩

theorem walk_stemOf (h : fs.locate path = .ok l) : fs.walk (Path.stemOf path) = .ok l := by
  have hne := (of_locate h).2
  unfold FileSystem.locate at h
  unfold walk
  rw [Path.names_stemOf, Path.isAbsolute_stemOf hne]
  split_ifs at h ⊢
  all_goals exact h

/-! ## Names in a directory -/

/-- A name that a file can have. -/
structure Named (name : String) : Prop where
  plain : Path.IsName name
  nul : '\x00' ∉ name.toList
  short : name.utf8ByteSize ≤ maxName

/-- A name that a file in the directory `path` can have. -/
structure Fits (path name : String) : Prop where
  plain : Path.IsName name
  nul : '\x00' ∉ name.toList
  short : name.utf8ByteSize ≤ maxName
  within : (Path.join path name).utf8ByteSize < pathBound

theorem enter_of_isName (hd : fs.DirectoryAt l) (hn : Path.IsName name) :
    fs.enter l name = if maxName < name.utf8ByteSize then .error .nameTooLong else .ok (name :: l) := by
  rw [enter_of_directory hd, if_neg hn.here, if_neg hn.up]

/-- A path that ends in a name leads to that name in a directory. -/
theorem eq_cons_of_locate (hs : Path.IsStem stem) (hn : Path.IsName name)
    (h : fs.locate (Path.behind stem name) = .ok m) :
    Named name ∧ ∃ d, fs.walk stem = .ok d ∧ fs.DirectoryAt d ∧ m = name :: d := by
  obtain ⟨hnul, d, hw, he⟩ := exists_enter_of_locate hs hn.nonempty hn.separator h
  have hd := directoryAt_of_enter he
  rw [enter_of_isName hd hn] at he
  split_ifs at he with hlong
  exact ⟨⟨hn, hnul, Nat.not_lt.1 hlong⟩, d, hw, hd, (Except.ok.inj he).symm⟩

/-- Where the path of a name in a directory leads depends on the directory alone. -/
theorem locate_join_eq (h : fs.locate path = .ok l) (hd : fs.DirectoryAt l) (hn : Path.IsName name) :
    fs.locate (Path.join path name) =
      if '\x00' ∈ name.toList then .error .nulInPath
      else if pathBound ≤ (Path.join path name).utf8ByteSize then .error .nameTooLong
      else if maxName < name.utf8ByteSize then .error .nameTooLong
      else .ok (name :: l) := by
  obtain ⟨hnul, hne⟩ := of_locate h
  have hstem : '\x00' ∉ Path.stemOf path := by
    unfold Path.stemOf
    split <;> simp [hnul]
  rw [Path.join_eq hne hn.separator, locate_behind (Path.isStem_stemOf path) hn.nonempty hn.separator,
    walk_stemOf h]
  show (if _ then _ else if _ then _ else fs.enter l name) = _
  rw [enter_of_isName hd hn]
  simp only [List.mem_append, hstem, false_or]

theorem locate_join (h : fs.locate path = .ok l) (hd : fs.DirectoryAt l) (hf : Fits path name) :
    fs.locate (Path.join path name) = .ok (name :: l) := by
  rw [locate_join_eq h hd hf.plain, if_neg hf.nul, if_neg (Nat.not_le.2 hf.within),
    if_neg (Nat.not_lt.2 hf.short)]

end Courier.FileSystem
