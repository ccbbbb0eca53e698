import Courier.Proofs.Cache.Directory
import Courier.Proofs.Cache.Stock
import Courier.Proofs.Envelope.RoundTrip

/-!
# Loading what is in stock

`Holds c fs es` says that the directory of a cache holds the envelopes `es` and nothing else.
`Holds.loadAll` says that all of them are loaded, as they were stored, and in which order: the file that
was modified first comes first, and of two files of one age the one of the smaller name.
-/

namespace Courier.DiskCache

open FileSystem

variable {c : DiskCache} {fs : FileSystem} {es : List Envelope} {e : Envelope}

/-! ## The order of age -/

/-- The entry of an envelope in the directory of a cache. -/
def entryOf (c : DiskCache) (fs : FileSystem) (e : Envelope) : Entry :=
  ⟨c.modifiedAt fs (entryName e.key), entryName e.key⟩

/-- The file of one envelope was modified before that of another one, or at the same time, and its
name is smaller. -/
def Before (c : DiskCache) (fs : FileSystem) (e e' : Envelope) : Prop :=
  c.modifiedAt fs (entryName e.key) < c.modifiedAt fs (entryName e'.key) ∨
    c.modifiedAt fs (entryName e.key) = c.modifiedAt fs (entryName e'.key) ∧
      entryName e.key < entryName e'.key

/-- Whether the entry of one envelope comes before that of another one. -/
def isBefore (c : DiskCache) (fs : FileSystem) (e e' : Envelope) : Bool :=
  (c.entryOf fs e).le (c.entryOf fs e')

theorem pairwise_isBefore (c : DiskCache) (fs : FileSystem) (es : List Envelope) :
    (es.mergeSort (c.isBefore fs)).Pairwise fun e e' => c.isBefore fs e e' = true := by
  have trans (a b d : Envelope) (h : c.isBefore fs a b = true) (h' : c.isBefore fs b d = true) :
      c.isBefore fs a d = true :=
    Entry.le_trans (b := c.entryOf fs b) h h'
  have total (a b : Envelope) : (c.isBefore fs a b || c.isBefore fs b a) = true :=
    Entry.le_total (c.entryOf fs a) (c.entryOf fs b)
  exact List.pairwise_mergeSort trans total es

theorem pairwise_before (hn : (es.map Envelope.key).Nodup) :
    (es.mergeSort (c.isBefore fs)).Pairwise (c.Before fs) := by
  have hne : (es.mergeSort (c.isBefore fs)).Pairwise fun e e' => e.key ≠ e'.key := by
    have hp := ((List.mergeSort_perm es (c.isBefore fs)).map Envelope.key).nodup_iff.2 hn
    exact List.pairwise_map.1 hp
  refine ((c.pairwise_isBefore fs es).and hne).imp fun {e e'} h => ?_
  obtain ⟨h, hk⟩ := h
  rcases Entry.le_iff.1 h with h | ⟨h, hname⟩
  · exact .inl h
  · exact .inr ⟨h, lt_of_le_of_ne hname fun he => hk (entryName_injective he)⟩

/-! ## The envelopes in stock -/

/-- The directory of a cache holds these envelopes and nothing else. -/
structure Holds (c : DiskCache) (fs : FileSystem) (es : List Envelope) : Prop where
  stocked : ∃ stock, c.Stocked fs stock ∧
    stock.map (fun p => (p.1, some p.2)) = es.map fun e => (e.key, e.write?)
  usable : ∀ e ∈ es, c.Usable e.key

namespace Holds

theorem map_key {stock : List (String × Bytes)}
    (h : stock.map (fun p => (p.1, some p.2)) = es.map fun e => (e.key, e.write?)) :
    stock.map Prod.fst = es.map Envelope.key := by
  have hk := congrArg (List.map Prod.fst) h
  rw [List.map_map, List.map_map] at hk
  exact hk

theorem nodup (h : c.Holds fs es) : (es.map Envelope.key).Nodup := by
  obtain ⟨stock, hs, hes⟩ := h.stocked
  rw [← map_key hes]
  exact hs.nodup

/-- What a directory holds does not depend on how many envelopes may be kept in it. -/
theorem of_root {c' : DiskCache} (h : c.Holds fs es) (hroot : c'.root = c.root) :
    c'.Holds fs es := by
  obtain ⟨root, maxItems⟩ := c
  obtain ⟨root', maxItems'⟩ := c'
  obtain rfl : root' = root := hroot
  refine ⟨h.stocked, fun e he => ?_⟩
  obtain ⟨nonempty, notDot, separator, nul, short, within⟩ := h.usable e he
  exact ⟨nonempty, notDot, separator, nul, short, within⟩

theorem list (h : c.Holds fs es) : ∃ children, fs.list c.root = .ok children ∧
    children.map Prod.fst = es.map fun e => entryName e.key := by
  obtain ⟨stock, hs, hes⟩ := h.stocked
  obtain ⟨children, hl, hn⟩ := hs.list
  refine ⟨children, hl, hn.trans ?_⟩
  calc stock.map (fun s => entryName s.1) = (stock.map Prod.fst).map entryName := by
        rw [List.map_map]
        rfl
    _ = es.map fun e => entryName e.key := by
        rw [map_key hes, List.map_map]
        rfl

theorem entries (h : c.Holds fs es) : c.entries fs = es.map (c.entryOf fs) := by
  obtain ⟨children, hlist, names⟩ := h.list
  have all : children.filter (fun x => isEntryName x.1) = children := by
    refine List.filter_eq_self.2 fun x hx => ?_
    have hm : x.1 ∈ es.map fun e => entryName e.key := by
      rw [← names]
      exact List.mem_map.2 ⟨x, hx, rfl⟩
    obtain ⟨e, he, hn⟩ := List.mem_map.1 hm
    rw [← hn]
    rw [isEntryName_entryName (h.usable e he).separator]
    exact decide_eq_true (h.usable e he).nonempty
  unfold DiskCache.entries
  rw [hlist]
  calc (children.filter fun x => isEntryName x.1).map (fun x => (⟨c.modifiedAt fs x.1, x.1⟩ : Entry))
      = (children.map Prod.fst).map fun name => ⟨c.modifiedAt fs name, name⟩ := by
        rw [all, List.map_map]
        rfl
    _ = es.map (c.entryOf fs) := by
        rw [names, List.map_map]
        rfl

theorem byAge (h : c.Holds fs es) :
    c.byAge fs = (es.mergeSort (c.isBefore fs)).map (c.entryOf fs) := by
  unfold DiskCache.byAge
  rw [h.entries]
  exact (List.map_mergeSort (f := c.entryOf fs) fun _ _ _ _ => rfl).symm

/-- The file of an envelope holds what is written for it. -/
theorem read (h : c.Holds fs es) (he : e ∈ es) :
    ∃ bytes, e.write? = some bytes ∧ fs.read (c.entryPath e.key) = .ok bytes := by
  obtain ⟨stock, hs, hes⟩ := h.stocked
  have hm : (e.key, e.write?) ∈ stock.map fun p => (p.1, some p.2) := by
    rw [hes]
    exact List.mem_map.2 ⟨e, he, rfl⟩
  obtain ⟨⟨key, bytes⟩, hp, heq⟩ := List.mem_map.1 hm
  obtain ⟨rfl, hw⟩ := Prod.mk.inj heq
  have hread := hs.read (h.usable e he)
  rw [lookup_of_mem hs.nodup hp] at hread
  exact ⟨bytes, hw.symm, hread⟩

theorem readEntry (h : c.Holds fs es) (he : e ∈ es) :
    readEntry fs (c.entryPath e.key) = .ok ⟨some e.key, e.header, e.items⟩ := by
  obtain ⟨bytes, hw, hread⟩ := h.read he
  unfold DiskCache.readEntry
  rw [hread]
  simp only [Stored.read?_of_write? hw]

/-- All envelopes are loaded, in the order of age. -/
theorem loadAll (h : c.Holds fs es) (keys : KeySource) :
    c.loadAll fs keys = (es.mergeSort (c.isBefore fs), keys, []) := by
  have load (some : List Envelope) (hsub : ∀ e ∈ some, e ∈ es) :
      loadPaths fs keys (some.map fun e => c.entryPath e.key) = (some, keys, []) := by
    induction some with
    | nil => rfl
    | cons e more ih =>
      rw [List.map_cons, loadPaths, h.readEntry (hsub e List.mem_cons_self)]
      simp only [Stored.resume, ih fun e he => hsub e (List.mem_cons_of_mem _ he)]
  unfold DiskCache.loadAll
  rw [h.byAge, List.map_map]
  exact load _ fun e he => (List.mergeSort_perm es _).mem_iff.1 he

end Holds
end Courier.DiskCache
