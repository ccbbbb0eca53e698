import Courier.Cache.Disk
import Courier.Proofs.FileSystem.Resolving

/-!
# The files of keys

A key can be any text. Its file and the one that is written first are in the directory to which the
key leads, which is that of the cache if the key has no separator; their names depend on the last
piece of the key (`DiskCache.exists_paths`). The names are those of entries unless the piece is empty
(`DiskCache.isEntryName_entryName`), and what is written first never is one
(`DiskCache.isEntryName_draftName`). `Usable` are the keys that can be names of files.
-/

namespace Courier.DiskCache

open FileSystem

variable {c : DiskCache} {key piece : String} {stem : List Char}

/-! ## Names -/

/-- The name of the file of a key. -/
def entryName (key : String) : String := key ++ "." ++ extension

/-- The name under which the file of a key is written first. -/
def temporaryName (key : String) : String := key ++ "." ++ "tmp"

theorem entryName_injective {key key' : String} (h : entryName key = entryName key') :
    key = key' := by
  have hl := congrArg String.toList h
  simp only [entryName, String.toList_append, List.append_assoc] at hl
  exact String.toList_inj.1 (List.append_cancel_right hl)

theorem entryName_ne_temporaryName (key key' : String) : entryName key ≠ temporaryName key' := by
  intro h
  have hl := congrArg (fun s => s.toList.getLast?) h
  simp [entryName, temporaryName, extension, String.toList_append] at hl

theorem isName_entryName (hn : '/' ∉ key.toList) : Path.IsName (entryName key) :=
  Path.isName_dotted hn (by decide) (by decide)

theorem isName_temporaryName (hn : '/' ∉ key.toList) : Path.IsName (temporaryName key) :=
  Path.isName_dotted hn (by decide) (by decide)

theorem extension?_dotted {ext : String} (hn : '/' ∉ key.toList)
    (he : Path.IsExtension ext.toList) (h₀ : ext ≠ "") :
    Path.extension? (key ++ "." ++ ext) = if key.toList = [] then none else some ext := by
  have h := Path.extension?_extended (.inl rfl) hn he (Path.toList_ne_nil h₀)
  rw [List.nil_append, ← Path.toList_dotted, String.ofList_toList, String.ofList_toList] at h
  exact h

/-- The file of a key is an entry, unless there is nothing before its extension. -/
theorem isEntryName_entryName (hn : '/' ∉ key.toList) :
    isEntryName (entryName key) = decide (key ≠ "") := by
  unfold isEntryName entryName
  rw [extension?_dotted hn ⟨by decide, by decide⟩ (by decide)]
  by_cases hk : key = ""
  · subst hk
    decide
  · rw [if_neg (Path.toList_ne_nil hk), decide_eq_true hk]
    exact beq_self_eq_true _

theorem isEntryName_temporaryName (hn : '/' ∉ key.toList) :
    isEntryName (temporaryName key) = false := by
  unfold isEntryName temporaryName
  rw [extension?_dotted hn ⟨by decide, by decide⟩ (by decide)]
  split <;> decide

/-! ## Any key -/

/-- The name under which the file of a key is written first, by the last piece of the key. What
begins with its only dot has no extension, and two dots do not bear one. -/
def draftName (piece : String) : String :=
  if piece = "" then temporaryName (entryName "")
  else if piece = "." then ".."
  else temporaryName piece

theorem draftName_of_ne (h₀ : piece ≠ "") (hd : piece ≠ ".") :
    draftName piece = temporaryName piece := by
  rw [draftName, if_neg h₀, if_neg hd]

theorem isName_draftName (hn : '/' ∉ piece.toList) (hd : piece ≠ ".") :
    Path.IsName (draftName piece) := by
  by_cases h₀ : piece = ""
  · rw [draftName, if_pos h₀]
    exact isName_temporaryName (by decide)
  · rw [draftName_of_ne h₀ hd]
    exact isName_temporaryName hn

theorem isEntryName_draftName (hn : '/' ∉ piece.toList) : isEntryName (draftName piece) = false := by
  by_cases h₀ : piece = ""
  · rw [draftName, if_pos h₀]
    exact isEntryName_temporaryName (by decide)
  · by_cases hd : piece = "."
    · rw [draftName, if_neg h₀, if_pos hd]
      decide
    · rw [draftName_of_ne h₀ hd]
      exact isEntryName_temporaryName hn

theorem withExtension_entryName (hs : Path.IsStem stem) (hn : '/' ∉ piece.toList) :
    Path.withExtension (Path.behind stem (entryName piece)) "tmp" =
      Path.behind stem (draftName piece) := by
  have he : Path.IsExtension extension.toList := ⟨by decide, by decide⟩
  by_cases h₀ : piece = ""
  · subst h₀
    exact Path.withExtension_hidden hs he (by decide) "tmp"
  · by_cases hd : piece = "."
    · subst hd
      exact Path.withExtension_up hs he (by decide) "tmp"
    · rw [draftName_of_ne h₀ hd]
      exact Path.withExtension_behind hs h₀ hd hn he (by decide) "tmp"

/-- The two paths of a key end in names that depend on its last piece, behind the same stem. -/
theorem exists_paths (c : DiskCache) (key : String) : ∃ stem, Path.IsStem stem ∧
    c.entryPath key = Path.behind stem (entryName (Path.lastPiece key)) ∧
    c.temporaryPath key = Path.behind stem (draftName (Path.lastPiece key)) := by
  obtain ⟨stem, hs, hjoin⟩ := Path.exists_join_eq c.root key
  have hentry : c.entryPath key = Path.behind stem (entryName (Path.lastPiece key)) := by
    have h := hjoin ("." ++ extension) (by decide)
    rw [← String.append_assoc, ← String.append_assoc] at h
    exact h
  refine ⟨stem, hs, hentry, ?_⟩
  unfold temporaryPath
  rw [hentry, withExtension_entryName hs (Path.not_mem_lastPiece key)]

theorem endsInSeparator_entryPath (c : DiskCache) (key : String) :
    Path.endsInSeparator (c.entryPath key) = false := by
  obtain ⟨stem, -, hentry, -⟩ := exists_paths c key
  have hname := isName_entryName (Path.not_mem_lastPiece key)
  rw [hentry, Path.endsInSeparator_behind hname.nonempty hname.separator]

theorem endsInSeparator_temporaryPath (c : DiskCache) (key : String) :
    Path.endsInSeparator (c.temporaryPath key) = false := by
  obtain ⟨stem, -, -, hdraft⟩ := exists_paths c key
  have hpiece := Path.not_mem_lastPiece key
  rw [hdraft]
  by_cases hdot : Path.lastPiece key = "."
  · rw [hdot]
    exact Path.endsInSeparator_behind (by decide) (by decide)
  · have hname := isName_draftName hpiece hdot
    exact Path.endsInSeparator_behind hname.nonempty hname.separator

theorem paths_of_not_mem (hb : c.root ≠ "") (hn : '/' ∉ key.toList) :
    c.entryPath key = Path.behind (Path.stemOf c.root) (entryName key) ∧
      c.temporaryPath key = Path.behind (Path.stemOf c.root) (draftName key) := by
  have hentry : c.entryPath key = Path.behind (Path.stemOf c.root) (entryName key) :=
    Path.join_eq hb (isName_entryName hn).separator
  refine ⟨hentry, ?_⟩
  unfold temporaryPath
  rw [hentry, withExtension_entryName (Path.isStem_stemOf c.root) hn]

/-! ## Keys that can be names -/

/-- A key that can be the name of a file in the directory of the cache. -/
structure Usable (c : DiskCache) (key : String) : Prop where
  nonempty : key ≠ ""
  notDot : key ≠ "."
  separator : '/' ∉ key.toList
  nul : '\x00' ∉ key.toList
  short : (entryName key).utf8ByteSize ≤ maxName
  within : (c.entryPath key).utf8ByteSize < pathBound

instance (c : DiskCache) (key : String) : Decidable (c.Usable key) :=
  decidable_of_iff (key ≠ "" ∧ key ≠ "." ∧ '/' ∉ key.toList ∧ '\x00' ∉ key.toList ∧
      (entryName key).utf8ByteSize ≤ maxName ∧ (c.entryPath key).utf8ByteSize < pathBound)
    ⟨fun ⟨nonempty, notDot, separator, nul, short, within⟩ =>
      ⟨nonempty, notDot, separator, nul, short, within⟩,
    fun h => ⟨h.nonempty, h.notDot, h.separator, h.nul, h.short, h.within⟩⟩

namespace Usable

theorem fits_entry (hu : c.Usable key) : Fits c.root (entryName key) where
  plain := isName_entryName hu.separator
  nul := by simpa [entryName, extension, String.toList_append] using hu.nul
  short := hu.short
  within := hu.within

theorem fits_temporary (hb : c.root ≠ "") (hu : c.Usable key) :
    Fits c.root (temporaryName key) := by
  have plain := isName_temporaryName hu.separator
  have size : (temporaryName key).utf8ByteSize ≤ (entryName key).utf8ByteSize := by
    simp only [temporaryName, entryName, String.utf8ByteSize_append]
    exact Nat.add_le_add_left (by decide) _
  refine ⟨plain, ?_, Nat.le_trans size hu.short, ?_⟩
  · simpa [temporaryName, String.toList_append] using hu.nul
  · have hw : (Path.join c.root (entryName key)).utf8ByteSize < pathBound := hu.within
    rw [Path.join_eq hb hu.fits_entry.plain.separator, Path.utf8ByteSize_behind] at hw
    rw [Path.join_eq hb plain.separator, Path.utf8ByteSize_behind]
    omega

theorem temporaryPath_eq (hb : c.root ≠ "") (hu : c.Usable key) :
    c.temporaryPath key = Path.join c.root (temporaryName key) := by
  rw [(paths_of_not_mem hb hu.separator).2, draftName_of_ne hu.nonempty hu.notDot,
    Path.join_eq hb (isName_temporaryName hu.separator).separator]

end Usable
end Courier.DiskCache
