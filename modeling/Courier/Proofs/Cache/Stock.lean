import Courier.Proofs.Cache.Naming
import Courier.Proofs.FileSystem.Folder

/-!
# The stock of a cache on disk

`Stocked c fs stock` says that the directory of a cache holds the files of `stock` and nothing else:
one file for every key in it, with these bytes. Storing an envelope adds its file while there is room
(`Stocked.store`), discarding removes it (`Stocked.discard`), and reading the path of a key gives
what is in stock (`Stocked.read`).
-/

namespace Courier.DiskCache

open FileSystem

variable {c : DiskCache} {fs : FileSystem} {stock : List (String × Bytes)} {key : String}
  {e : Envelope} {bytes : Bytes}

/-! ## The stock -/

/-- The files of a stock. -/
def filesOf (stock : List (String × Bytes)) : List (String × Bytes) :=
  stock.map fun s => (entryName s.1, s.2)

/-- The directory of a cache holds the files of a stock and nothing else. -/
def Stocked (c : DiskCache) (fs : FileSystem) (stock : List (String × Bytes)) : Prop :=
  ∃ l, Folder fs c.root l (filesOf stock)

theorem lookup_filesOf (stock : List (String × Bytes)) (key : String) :
    (filesOf stock).lookup (entryName key) = stock.lookup key := by
  unfold filesOf
  induction stock with
  | nil => rfl
  | cons s rest ih =>
    rw [List.map_cons, List.lookup_cons, List.lookup_cons, ih]
    by_cases h : key = s.1
    · subst h
      simp
    · have hn : (entryName key == entryName s.1) = false := by
        simpa using fun he => h (entryName_injective he)
      have hk : (key == s.1) = false := by simpa using h
      simp only [hn, hk]

theorem without_filesOf (stock : List (String × Bytes)) (key : String) :
    without (filesOf stock) (entryName key) = filesOf (stock.filter fun s => s.1 ≠ key) := by
  unfold without filesOf
  rw [List.filter_map]
  refine congrArg _ (List.filter_congr fun s _ => ?_)
  have : entryName s.1 = entryName key ↔ s.1 = key := ⟨entryName_injective, congrArg _⟩
  simp [this]

theorem without_temporaryName (stock : List (String × Bytes)) (key : String) :
    without (filesOf stock) (temporaryName key) = filesOf stock := by
  refine List.filter_eq_self.2 fun f hf => ?_
  obtain ⟨s, -, rfl⟩ := List.mem_map.1 hf
  simpa using entryName_ne_temporaryName s.1 key

theorem filter_of_lookup_eq_none {α : Type} {xs : List (String × α)} (h : xs.lookup key = none) :
    (xs.filter fun x => x.1 ≠ key) = xs := by
  refine List.filter_eq_self.2 fun x hx => ?_
  have hne := List.lookup_eq_none_iff.1 h x hx
  simpa using fun he : x.1 = key => by simp [he] at hne

namespace Stocked

theorem of_list_nil (h : fs.list c.root = .ok []) : c.Stocked fs [] :=
  Folder.of_list_nil h

theorem root_ne_empty (hs : Stocked c fs stock) : c.root ≠ "" := by
  obtain ⟨l, hf⟩ := hs
  exact (of_locate hf.located).2

theorem nodup (hs : Stocked c fs stock) : (stock.map Prod.fst).Nodup := by
  obtain ⟨l, hf⟩ := hs
  have hn := hf.nodup
  rw [filesOf, List.map_map, List.Nodup, List.pairwise_map] at hn
  rw [List.Nodup, List.pairwise_map]
  exact hn.imp fun hne he => hne (congrArg entryName he)

theorem contains (hs : Stocked c fs stock) (hu : c.Usable e.key) :
    c.contains fs e = (stock.lookup e.key).isSome := by
  obtain ⟨l, hf⟩ := hs
  rw [← lookup_filesOf]
  exact hf.contains hu.fits_entry

theorem read (hs : Stocked c fs stock) (hu : c.Usable key) :
    fs.read (c.entryPath key) =
      match stock.lookup key with
      | some bytes => .ok bytes
      | none => .error .notFound := by
  obtain ⟨l, hf⟩ := hs
  have hl := lookup_filesOf stock key
  cases h : stock.lookup key with
  | none => exact hf.read_missing hu.fits_entry (hl.trans h)
  | some bytes => exact hf.read hu.fits_entry (hl.trans h)

theorem list (hs : Stocked c fs stock) :
    ∃ children, fs.list c.root = .ok children ∧
      children.map Prod.fst = stock.map fun s => entryName s.1 := by
  obtain ⟨l, hf⟩ := hs
  obtain ⟨children, hl, hn⟩ := hf.list
  refine ⟨children, hl, ?_⟩
  rw [hn, filesOf, List.map_map]
  rfl

theorem count_le (hs : Stocked c fs stock) : c.count fs ≤ stock.length := by
  obtain ⟨children, hl, hn⟩ := hs.list
  have hlen : children.length = stock.length := by
    have h := congrArg List.length hn
    rw [List.length_map, List.length_map] at h
    exact h
  unfold count entries
  rw [hl]
  show ((children.filter _).map _).length ≤ _
  rw [List.length_map, ← hlen]
  exact List.length_filter_le _ _

theorem evictDownTo (hs : Stocked c fs stock) {keep : Nat} (h : stock.length ≤ keep) :
    c.evictDownTo fs keep = ⟨fs, [], .ok ()⟩ := by
  have hc : c.count fs - keep = 0 := Nat.sub_eq_zero_of_le (Nat.le_trans hs.count_le h)
  unfold DiskCache.evictDownTo
  rw [hc]
  rfl

/-- A file is written under its temporary name and then renamed. -/
theorem writeEntry (hs : Stocked c fs stock) (hu : c.Usable key) (hn : stock.lookup key = none)
    (bytes : Bytes) :
    ∃ fs', c.writeEntry fs key bytes = (fs', .ok ()) ∧ Stocked c fs' ((key, bytes) :: stock) := by
  have hb := hs.root_ne_empty
  have ht := hu.fits_temporary hb
  obtain ⟨l, hf⟩ := hs
  obtain ⟨fs₁, hw, hf₁⟩ := hf.write ht bytes
  rw [without_temporaryName] at hf₁
  have hl : ((temporaryName key, bytes) :: filesOf stock).lookup (temporaryName key) =
      some bytes := List.lookup_cons_self
  obtain ⟨fs₂, hr, hf₂⟩ :=
    hf₁.rename ht hu.fits_entry (entryName_ne_temporaryName key key).symm hl
  refine ⟨fs₂, ?_, l, ?_⟩
  · unfold DiskCache.writeEntry
    have hr : fs₁.rename (Path.join c.root (temporaryName key)) (c.entryPath key) = .ok fs₂ := hr
    simp only [hu.temporaryPath_eq hb, hw, hr]
  · have hfirst : without ((temporaryName key, bytes) :: filesOf stock) (temporaryName key) =
        filesOf stock := by
      rw [← without_temporaryName stock key]
      simp [without]
    rw [hfirst, without_filesOf, filter_of_lookup_eq_none hn] at hf₂
    exact hf₂

/-- Storing an envelope that is not in stock adds its file, while there is room. -/
theorem store (hs : Stocked c fs stock) (hu : c.Usable e.key) (hn : stock.lookup e.key = none)
    (room : stock.length < c.maxItems) (hw : e.write? = some bytes) :
    Stocked c (c.store fs e).1 ((e.key, bytes) :: stock) := by
  obtain ⟨fs', he, hs'⟩ := hs.writeEntry hu hn bytes
  have hc : c.contains fs e = false := by rw [hs.contains hu, hn]; rfl
  unfold DiskCache.store tryStore
  rw [hc, hs.evictDownTo (Nat.le_sub_one_of_lt room)]
  simp only [Bool.false_eq_true, if_false, hw, he]
  exact hs'

theorem store_again (hs : Stocked c fs stock) (hu : c.Usable e.key)
    (hn : stock.lookup e.key = some bytes) : (c.store fs e).1 = fs := by
  have hc : c.contains fs e = true := by rw [hs.contains hu, hn]; rfl
  unfold DiskCache.store tryStore
  rw [hc]
  rfl

theorem remove (hs : Stocked c fs stock) (hu : c.Usable key) (h : stock.lookup key = some bytes) :
    ∃ fs', fs.remove (c.entryPath key) = .ok fs' ∧
      Stocked c fs' (stock.filter fun s => s.1 ≠ key) := by
  obtain ⟨l, hf⟩ := hs
  obtain ⟨fs', hr, hf'⟩ := hf.remove hu.fits_entry ((lookup_filesOf stock key).trans h)
  rw [without_filesOf] at hf'
  exact ⟨fs', hr, l, hf'⟩

theorem remove_missing (hs : Stocked c fs stock) (hu : c.Usable key)
    (h : stock.lookup key = none) : fs.remove (c.entryPath key) = .error .notFound := by
  obtain ⟨l, hf⟩ := hs
  exact hf.remove_missing hu.fits_entry ((lookup_filesOf stock key).trans h)

/-- Discarding an envelope removes its file if there is one. -/
theorem discard (hs : Stocked c fs stock) (hu : c.Usable e.key) :
    Stocked c (c.discard fs e).1 (stock.filter fun s => s.1 ≠ e.key) := by
  unfold DiskCache.discard
  cases h : stock.lookup e.key with
  | none =>
    simp only [filter_of_lookup_eq_none h, hs.remove_missing hu h]
    exact hs
  | some bytes =>
    obtain ⟨fs', hr, hs'⟩ := hs.remove hu h
    simp only [hr]
    exact hs'

/-- Discarding an envelope leaves the other files as they were. -/
theorem list_discard (hs : Stocked c fs stock) (hu : c.Usable e.key)
    {children : List (String × Node)} (h : fs.list c.root = .ok children) :
    (c.discard fs e).1.list c.root = .ok (children.filter fun x => x.1 ≠ entryName e.key) := by
  obtain ⟨l, hf⟩ := hs
  obtain rfl : fs.children l = children := Except.ok.inj (hf.list_eq.symm.trans h)
  have hl := lookup_filesOf stock e.key
  unfold DiskCache.discard
  cases hstock : stock.lookup e.key with
  | none =>
    have hr : fs.remove (c.entryPath e.key) = .error .notFound :=
      hf.remove_missing hu.fits_entry (hl.trans hstock)
    have hnode := hf.node?_eq_none (hl.trans hstock)
    rw [node?_cons] at hnode
    rw [filter_of_lookup_eq_none hnode]
    simp only [hr]
    exact hf.list_eq
  | some bytes =>
    obtain ⟨fs', hr, hf'⟩ := hf.remove hu.fits_entry (hl.trans hstock)
    have hc := hf.children_of_remove hu.fits_entry (hl.trans hstock) hr
    have hr : fs.remove (c.entryPath e.key) = .ok fs' := hr
    simp only [hr]
    rw [hf'.list_eq, hc]

end Stocked
end Courier.DiskCache
