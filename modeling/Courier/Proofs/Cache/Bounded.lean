import Courier.Proofs.Cache.Loading

/-!
# The cache as a bounded list

A cache on disk behaves like a list of envelopes in the order in which they were stored.
`InOrder c fs es` ties the directory of the cache to such a list: it holds the envelopes `es` and
nothing else, and each file is older than those after it. A step ties the directory to what
`Step.keep` makes of the list (`Step.inOrder_apply`), and a run follows by induction
(`inOrder_run`). That files that are made later are younger is what the steps rely on; it holds if
the clock does not go back (`agesAll_of_forward`).
-/

namespace Courier.DiskCache

open FileSystem

variable {c : DiskCache} {fs fs' : FileSystem} {stock : List (String × Bytes)} {es : List Envelope}
  {e : Envelope} {key : String} {bytes : Bytes}

/-! ## Changes of one file -/

/-- A change of the file of one key: the other files are as old as before, and the clock went on. -/
structure Touches (c : DiskCache) (fs fs' : FileSystem) (key : String) : Prop where
  others : ∀ other, c.Usable other → other ≠ key →
    c.modifiedAt fs' (entryName other) = c.modifiedAt fs (entryName other)
  clock : fs.clock ≤ fs'.clock

/-- The files of some envelopes are as old as before, and the clock did not go back. -/
structure Leaves (c : DiskCache) (fs fs' : FileSystem) (es : List Envelope) : Prop where
  ages : ∀ e ∈ es, c.modifiedAt fs' (entryName e.key) = c.modifiedAt fs (entryName e.key)
  clock : fs.clock ≤ fs'.clock

theorem Touches.leaves (h : c.Touches fs fs' key) (hu : ∀ e ∈ es, c.Usable e.key)
    (hne : ∀ e ∈ es, e.key ≠ key) : c.Leaves fs fs' es :=
  ⟨fun e he => h.others e.key (hu e he) (hne e he), h.clock⟩

theorem Leaves.trans {fs'' : FileSystem} {fewer : List Envelope} (h : c.Leaves fs fs' es)
    (h' : c.Leaves fs' fs'' fewer) (hsub : fewer ⊆ es) : c.Leaves fs fs'' fewer :=
  ⟨fun e he => (h'.ages e he).trans (h.ages e (hsub he)), Int.le_trans h.clock h'.clock⟩

theorem modifiedAt_congr {name : String}
    (h : fs'.find (Path.join c.root name) = fs.find (Path.join c.root name)) :
    c.modifiedAt fs' name = c.modifiedAt fs name := by
  unfold modifiedAt
  rw [h]

namespace Stocked

theorem touches_of_remove (hs : c.Stocked fs stock) (hu : c.Usable key)
    (h : stock.lookup key = some bytes) (hr : fs.remove (c.entryPath key) = .ok fs') :
    c.Touches fs fs' key := by
  obtain ⟨l, hf⟩ := hs
  have hl := (lookup_filesOf stock key).trans h
  refine ⟨fun other ho hne => modifiedAt_congr ?_, ?_⟩
  · exact hf.find_of_remove hu.fits_entry hl hr ho.fits_entry (hne ∘ entryName_injective)
  · rw [clock_of_remove hr]
    exact Int.le_add_of_nonneg_right (by decide)

/-- A file that is written is later than the clock was, and not later than the clock is. -/
theorem touches_of_writeEntry (hs : c.Stocked fs stock) (hu : c.Usable key)
    (hw : c.writeEntry fs key bytes = (fs', .ok ())) :
    c.Touches fs fs' key ∧ fs.clock < c.modifiedAt fs' (entryName key) ∧
      c.modifiedAt fs' (entryName key) ≤ fs'.clock := by
  have hb := hs.root_ne_empty
  have ht := hu.fits_temporary hb
  have hne := entryName_ne_temporaryName key key
  obtain ⟨l, hf⟩ := hs
  obtain ⟨fs₁, hwrite, hf₁⟩ := hf.write ht bytes
  have hl : ((temporaryName key, bytes) :: without (filesOf stock) (temporaryName key)).lookup
      (temporaryName key) = some bytes := List.lookup_cons_self
  obtain ⟨fs₂, hrename, hf₂⟩ := hf₁.rename ht hu.fits_entry hne.symm hl
  have hmoved : fs₁.rename (Path.join c.root (temporaryName key)) (c.entryPath key) = .ok fs₂ :=
    hrename
  unfold DiskCache.writeEntry at hw
  simp only [hu.temporaryPath_eq hb, hwrite, hmoved, Prod.mk.injEq, and_true] at hw
  subst hw
  obtain ⟨hclock₁, hc₁⟩ := hf.children_of_write ht hwrite
  obtain ⟨hclock₂, n, hn, hc₂⟩ := hf₁.children_of_rename ht hu.fits_entry hne.symm hl hrename
  -- the renamed file has the time at which it was written
  rw [hc₁, List.lookup_cons_self] at hn
  obtain rfl := Option.some.inj hn
  have hage : c.modifiedAt fs₂ (entryName key) = fs.clock + tick := by
    unfold modifiedAt
    rw [hf₂.find_eq hu.fits_entry, hc₂, List.lookup_cons_self]
  have htick : (0 : Int) < tick := by decide
  refine ⟨⟨fun other ho hother => modifiedAt_congr ?_, by omega⟩, by omega, by omega⟩
  have htemporary := entryName_ne_temporaryName other key
  have hfirst := hf.find_of_write ht hwrite ho.fits_entry htemporary
  have hsecond := hf₁.find_of_rename ht hu.fits_entry hne.symm hl hrename ho.fits_entry htemporary
    (hother ∘ entryName_injective)
  exact hsecond.trans hfirst

end Stocked

namespace Holds

theorem of_clock (h : c.Holds fs es) (time : Int) : c.Holds { fs with clock := time } es := by
  obtain ⟨stock, ⟨l, hf⟩, hes⟩ := h.stocked
  exact ⟨⟨stock, ⟨l, hf.of_keeps ⟨fun _ hd => hd, rfl⟩ hf.children hf.nodup⟩, hes⟩, h.usable⟩

theorem lookup_eq_none {stock : List (String × Bytes)}
    (h : stock.map (fun p => (p.1, some p.2)) = es.map fun e => (e.key, e.write?))
    (hn : key ∉ es.map Envelope.key) : stock.lookup key = none := by
  rw [← map_key h] at hn
  rw [List.lookup_eq_none_iff]
  intro p hp
  have hne : key ≠ p.1 := fun he => hn (by rw [he]; exact List.mem_map.2 ⟨p, hp, rfl⟩)
  simpa using hne

theorem contains_iff (h : c.Holds fs es) (hu : c.Usable e.key) :
    c.contains fs e = true ↔ e.key ∈ es.map Envelope.key := by
  obtain ⟨stock, hs, hes⟩ := h.stocked
  rw [hs.contains hu]
  constructor
  · intro hsome
    by_contra hn
    rw [lookup_eq_none hes hn] at hsome
    cases hsome
  · intro hm
    rw [← map_key hes] at hm
    obtain ⟨p, hp, hk⟩ := List.mem_map.1 hm
    rw [← hk, lookup_of_mem hs.nodup hp]
    rfl

theorem remove_missing (h : c.Holds fs es) (hu : c.Usable key) (hn : key ∉ es.map Envelope.key) :
    fs.remove (c.entryPath key) = .error .notFound := by
  obtain ⟨stock, hs, hes⟩ := h.stocked
  exact hs.remove_missing hu (lookup_eq_none hes hn)

theorem remove (h : c.Holds fs es) (he : e ∈ es) :
    ∃ fs', fs.remove (c.entryPath e.key) = .ok fs' ∧
      c.Holds fs' (es.filter fun x => x.key ≠ e.key) ∧ c.Touches fs fs' e.key := by
  obtain ⟨stock, hs, hes⟩ := h.stocked
  obtain ⟨p, hp, hk⟩ : ∃ p ∈ stock, p.1 = e.key := by
    refine List.mem_map.1 ?_
    rw [map_key hes]
    exact List.mem_map.2 ⟨e, he, rfl⟩
  have hl := lookup_of_mem hs.nodup hp
  rw [hk] at hl
  obtain ⟨fs', hr, hs'⟩ := hs.remove (h.usable e he) hl
  refine ⟨fs', hr, ⟨⟨_, hs', ?_⟩, fun x hx => h.usable x (List.mem_of_mem_filter hx)⟩,
    hs.touches_of_remove (h.usable e he) hl hr⟩
  have hfilter := congrArg (List.filter fun q => q.1 ≠ e.key) hes
  rw [List.filter_map, List.filter_map] at hfilter
  exact hfilter

theorem write (h : c.Holds fs es) (hu : c.Usable e.key) (hn : e.key ∉ es.map Envelope.key)
    (hw : e.write? = some bytes) :
    ∃ fs', c.writeEntry fs e.key bytes = (fs', .ok ()) ∧ c.Holds fs' (e :: es) ∧
      c.Touches fs fs' e.key ∧ fs.clock < c.modifiedAt fs' (entryName e.key) ∧
      c.modifiedAt fs' (entryName e.key) ≤ fs'.clock := by
  obtain ⟨stock, hs, hes⟩ := h.stocked
  obtain ⟨fs', hwritten, hs'⟩ := hs.writeEntry hu (lookup_eq_none hes hn) bytes
  refine ⟨fs', hwritten, ⟨⟨_, hs', ?_⟩, ?_⟩, hs.touches_of_writeEntry hu hwritten⟩
  · rw [List.map_cons, List.map_cons, hes, hw]
  · intro x hx
    rcases List.mem_cons.1 hx with rfl | hx
    · exact hu
    · exact h.usable x hx

end Holds

/-! ## Directories in order -/

/-- The directory of a cache holds these envelopes and nothing else, and the file of each was
modified before those of the following ones. -/
structure InOrder (c : DiskCache) (fs : FileSystem) (es : List Envelope) : Prop where
  holds : ∃ held, held.Perm es ∧ c.Holds fs held
  ages : es.Pairwise fun e e' =>
    c.modifiedAt fs (entryName e.key) < c.modifiedAt fs (entryName e'.key)

/-- No file is from the future. -/
def Past (c : DiskCache) (fs : FileSystem) (es : List Envelope) : Prop :=
  ∀ e ∈ es, c.modifiedAt fs (entryName e.key) ≤ fs.clock

theorem Leaves.past (h : c.Leaves fs fs' es) (hp : c.Past fs es) : c.Past fs' es := fun e he => by
  rw [h.ages e he]
  exact Int.le_trans (hp e he) h.clock

/-- The file of an envelope was modified after all others that are there. -/
def IsNewest (c : DiskCache) (fs : FileSystem) (e : Envelope) : Prop :=
  ∀ entry ∈ c.entries fs, entry.name ≠ entryName e.key →
    entry.modified < c.modifiedAt fs (entryName e.key)

namespace InOrder

theorem of_list_nil (h : fs.list c.root = .ok []) : c.InOrder fs [] :=
  ⟨⟨[], .nil, ⟨[], Stocked.of_list_nil h, rfl⟩, fun _ he => by cases he⟩, .nil⟩

theorem of_clock (h : c.InOrder fs es) (time : Int) : c.InOrder { fs with clock := time } es := by
  obtain ⟨held, hp, hh⟩ := h.holds
  exact ⟨⟨held, hp, hh.of_clock time⟩, h.ages⟩

theorem usable (h : c.InOrder fs es) (he : e ∈ es) : c.Usable e.key := by
  obtain ⟨held, hp, hh⟩ := h.holds
  exact hh.usable e (hp.mem_iff.2 he)

theorem nodup (h : c.InOrder fs es) : (es.map Envelope.key).Nodup := by
  obtain ⟨held, hp, hh⟩ := h.holds
  exact (hp.map _).nodup_iff.1 hh.nodup

theorem mergeSort_eq (h : c.InOrder fs es) {held : List Envelope} (hp : held.Perm es)
    (hh : c.Holds fs held) : held.mergeSort (c.isBefore fs) = es := by
  have asymm (a b : Envelope) (hab : c.Before fs a b) (hba : c.Before fs b a) : a = b := by
    rcases hab with hab | ⟨hab, hname⟩ <;> rcases hba with hba | ⟨hba, hname'⟩
    · omega
    · omega
    · omega
    · exact absurd hname' (lt_asymm hname)
  have hages : es.Pairwise (c.Before fs) := h.ages.imp fun hlt => .inl hlt
  exact ((List.mergeSort_perm held _).trans hp).eq_of_pairwise (fun a b _ _ => asymm a b)
    (pairwise_before hh.nodup) hages

theorem loadAll (h : c.InOrder fs es) (keys : KeySource) : c.loadAll fs keys = (es, keys, []) := by
  obtain ⟨held, hp, hh⟩ := h.holds
  rw [hh.loadAll, h.mergeSort_eq hp hh]

theorem byAge (h : c.InOrder fs es) : c.byAge fs = es.map (c.entryOf fs) := by
  obtain ⟨held, hp, hh⟩ := h.holds
  rw [hh.byAge, h.mergeSort_eq hp hh]

theorem entries (h : c.InOrder fs es) : (c.entries fs).Perm (es.map (c.entryOf fs)) := by
  obtain ⟨held, hp, hh⟩ := h.holds
  rw [hh.entries]
  exact hp.map _

theorem count (h : c.InOrder fs es) : c.count fs = es.length := by
  rw [DiskCache.count, h.entries.length_eq, List.length_map]

theorem contains_iff (h : c.InOrder fs es) (hu : c.Usable e.key) :
    c.contains fs e = true ↔ e.key ∈ es.map Envelope.key := by
  obtain ⟨held, hp, hh⟩ := h.holds
  rw [hh.contains_iff hu, (hp.map _).mem_iff]

/-! ## Removing -/

theorem ages_of_leaves (h : c.InOrder fs es) {fewer : List Envelope} (hsub : fewer.Sublist es)
    (hl : c.Leaves fs fs' fewer) : fewer.Pairwise fun e e' =>
      c.modifiedAt fs' (entryName e.key) < c.modifiedAt fs' (entryName e'.key) := by
  refine (h.ages.sublist hsub).imp_of_mem fun {a b} ha hb hlt => ?_
  rw [hl.ages a ha, hl.ages b hb]
  exact hlt

theorem remove (h : c.InOrder fs es) (he : e ∈ es) :
    ∃ fs', fs.remove (c.entryPath e.key) = .ok fs' ∧
      c.InOrder fs' (es.filter fun x => x.key ≠ e.key) ∧
      c.Leaves fs fs' (es.filter fun x => x.key ≠ e.key) := by
  obtain ⟨held, hp, hh⟩ := h.holds
  obtain ⟨fs', hr, hh', ht⟩ := hh.remove (hp.mem_iff.2 he)
  have hl : c.Leaves fs fs' (es.filter fun x => x.key ≠ e.key) :=
    ht.leaves (fun x hx => h.usable (List.mem_of_mem_filter hx)) fun x hx =>
      of_decide_eq_true (List.mem_filter.1 hx).2
  exact ⟨fs', hr, ⟨⟨_, hp.filter _, hh'⟩, h.ages_of_leaves List.filter_sublist hl⟩, hl⟩

theorem filter_not_mem_cons (e : Envelope) (gone es : List Envelope) :
    (es.filter fun x => x.key ∉ (e :: gone).map Envelope.key) =
      (es.filter fun x => x.key ≠ e.key).filter fun x => x.key ∉ gone.map Envelope.key := by
  rw [List.filter_filter]
  refine List.filter_congr fun x _ => ?_
  rw [Bool.eq_iff_iff]
  simp only [List.map_cons, List.mem_cons, not_or, Bool.and_eq_true, decide_eq_true_eq]
  exact and_comm

/-- Entries of envelopes that are held are removed one after the other, be it to make room for
another one or to clear the cache. -/
theorem removeEach (h : c.InOrder fs es) {gone : List Envelope} (hsub : gone ⊆ es)
    (hn : (gone.map Envelope.key).Nodup) {entries : List Entry}
    (hp : entries.map c.pathOf = gone.map fun e => c.entryPath e.key) :
    ∃ fs' notices, c.evict fs entries = ⟨fs', notices, .ok ()⟩ ∧
      entries.foldl (fun fs e => (fs.remove (c.pathOf e)).toOption.getD fs) fs = fs' ∧
      c.InOrder fs' (es.filter fun x => x.key ∉ gone.map Envelope.key) ∧
      c.Leaves fs fs' (es.filter fun x => x.key ∉ gone.map Envelope.key) := by
  induction gone generalizing fs es entries with
  | nil =>
    obtain rfl : entries = [] := List.map_eq_nil_iff.1 hp
    refine ⟨fs, [], rfl, rfl, ?_⟩
    rw [List.filter_eq_self.2 fun x _ => by simp]
    exact ⟨h, fun _ _ => rfl, Int.le_refl _⟩
  | cons e more ih =>
    obtain ⟨entry, rest, rfl, hentry, hrest⟩ := List.map_eq_cons_iff.1 hp
    rw [List.map_cons, List.nodup_cons] at hn
    obtain ⟨fs₁, hr, h₁, hl₁⟩ := h.remove (hsub List.mem_cons_self)
    replace hr : fs.remove (c.pathOf entry) = .ok fs₁ := by
      rw [hentry]
      exact hr
    -- no key comes twice, so the others are still held
    have hsub₁ : more ⊆ es.filter fun x => x.key ≠ e.key := fun x hx => by
      refine List.mem_filter.2 ⟨hsub (List.mem_cons_of_mem _ hx), ?_⟩
      simpa using fun hk : x.key = e.key => hn.1 (by rw [← hk]; exact List.mem_map.2 ⟨x, hx, rfl⟩)
    obtain ⟨fs', notices, hevict, hfold, h', hl'⟩ := ih h₁ hsub₁ hn.2 hrest
    rw [filter_not_mem_cons]
    refine ⟨fs', .entryEvicted (c.pathOf entry) :: notices, ?_, ?_, h',
      hl₁.trans hl' (List.filter_subset_self _)⟩
    · rw [evict_cons hr, hevict]
    · rw [List.foldl_cons, hr]
      exact hfold

theorem filter_not_mem_self (es : List Envelope) :
    (es.filter fun x => x.key ∉ es.map Envelope.key) = [] :=
  List.filter_eq_nil_iff.2 fun x hx => by simpa using ⟨x, hx, rfl⟩

theorem filter_not_mem_append {first rest : List Envelope}
    (hn : ((first ++ rest).map Envelope.key).Nodup) :
    ((first ++ rest).filter fun x => x.key ∉ first.map Envelope.key) = rest := by
  rw [List.map_append, List.nodup_append] at hn
  obtain ⟨-, -, hne⟩ := hn
  rw [List.filter_append, filter_not_mem_self, List.nil_append]
  exact List.filter_eq_self.2 fun x hx => decide_eq_true fun hm =>
    hne _ hm _ (List.mem_map.2 ⟨x, hx, rfl⟩) rfl

/-- Room is made by giving up the first envelopes of the list. -/
theorem evictDownTo (h : c.InOrder fs es) (keep : Nat) :
    ∃ fs' notices, c.evictDownTo fs keep = ⟨fs', notices, .ok ()⟩ ∧
      c.InOrder fs' (es.drop (es.length - keep)) ∧
      c.Leaves fs fs' (es.drop (es.length - keep)) := by
  let excess := es.length - keep
  have hsplit : es.take excess ++ es.drop excess = es := List.take_append_drop excess es
  have hn := h.nodup
  rw [← hsplit] at hn
  have hn' : ((es.take excess).map Envelope.key).Nodup := by
    rw [List.map_append] at hn
    exact (List.nodup_append.1 hn).1
  have hrest := filter_not_mem_append hn
  rw [hsplit] at hrest
  have hentries : ((es.take excess).map (c.entryOf fs)).map c.pathOf =
      (es.take excess).map fun e => c.entryPath e.key := List.map_map ..
  obtain ⟨fs', notices, hevict, -, h'⟩ := h.removeEach (List.take_subset excess es) hn' hentries
  rw [hrest] at h'
  refine ⟨fs', notices, ?_, h'⟩
  rw [DiskCache.evictDownTo, h.byAge, h.count, ← List.map_take]
  exact hevict

theorem clear (h : c.InOrder fs es) : c.InOrder (c.clear fs) [] := by
  obtain ⟨held, hp, hh⟩ := h.holds
  have hentries : (held.map (c.entryOf fs)).map c.pathOf = held.map fun e => c.entryPath e.key :=
    List.map_map ..
  obtain ⟨fs', notices, -, hfold, h', -⟩ := h.removeEach hp.subset hh.nodup hentries
  rw [← hh.entries] at hfold
  unfold DiskCache.clear
  rw [hfold]
  have hnone : (es.filter fun x => x.key ∉ held.map Envelope.key) = [] :=
    List.filter_eq_nil_iff.2 fun x hx => by simpa using ⟨x, hp.mem_iff.2 hx, rfl⟩
  rw [hnone] at h'
  exact h'

/-- Discarding an envelope takes the one of its key out of the list. -/
theorem discard (h : c.InOrder fs es) (hu : c.Usable e.key) :
    c.InOrder (c.discard fs e).1 (es.filter fun x => x.key ≠ e.key) ∧
      c.Leaves fs (c.discard fs e).1 (es.filter fun x => x.key ≠ e.key) := by
  unfold DiskCache.discard
  by_cases hm : e.key ∈ es.map Envelope.key
  · obtain ⟨x, hx, hk⟩ := List.mem_map.1 hm
    obtain ⟨fs', hr, h'⟩ := h.remove hx
    rw [hk] at hr h'
    simp only [hr]
    exact h'
  · obtain ⟨held, hp, hh⟩ := h.holds
    have hr := hh.remove_missing hu (mt (hp.map _).mem_iff.1 hm)
    have hall : (es.filter fun x => x.key ≠ e.key) = es :=
      List.filter_eq_self.2 fun x hx => decide_eq_true fun hk =>
        hm (List.mem_map.2 ⟨x, hx, hk⟩)
    simp only [hr]
    rw [hall]
    exact ⟨h, fun _ _ => rfl, Int.le_refl _⟩

/-! ## Storing -/

theorem tryStore_of_mem (h : c.InOrder fs es) (hu : c.Usable e.key)
    (hm : e.key ∈ es.map Envelope.key) : c.tryStore fs e = ⟨fs, [], .ok false⟩ :=
  if_pos ((h.contains_iff hu).2 hm)

theorem isNewest_of_past {held : List Envelope} (h : c.Holds fs' (e :: held)) (hsub : held ⊆ es)
    (hl : c.Leaves fs fs' es) (hpast : c.Past fs es)
    (hlater : fs.clock < c.modifiedAt fs' (entryName e.key)) : c.IsNewest fs' e := by
  intro entry hentry hname
  rw [h.entries] at hentry
  obtain ⟨x, hx, rfl⟩ := List.mem_map.1 hentry
  rcases List.mem_cons.1 hx with rfl | hx
  · exact absurd rfl hname
  · show c.modifiedAt fs' (entryName x.key) < _
    rw [hl.ages x (hsub hx)]
    exact Int.lt_of_le_of_lt (hpast x (hsub hx)) hlater

/-- An envelope that is not held becomes the last one, and the first ones make room for it. Its file
is the newest one if no file was from the future. -/
theorem tryStore_of_not_mem (h : c.InOrder fs es) (hu : c.Usable e.key)
    (hn : e.key ∉ es.map Envelope.key)
    (ht : ∀ t, e.header.sentAt = some t → t.isBeforeEpoch = false) :
    let left := es.drop (es.length - (c.maxItems - 1))
    ∃ fs' notices, c.tryStore fs e = ⟨fs', notices, .ok true⟩ ∧
      (c.IsNewest fs' e → c.InOrder fs' (left ++ [e])) ∧
      (c.Past fs es → c.IsNewest fs' e ∧ c.Past fs' (left ++ [e])) := by
  intro left
  obtain ⟨bytes, hw⟩ := Envelope.exists_write? ht
  obtain ⟨fs₁, notices, hevict, h₁, hleft₁⟩ := h.evictDownTo (c.maxItems - 1)
  obtain ⟨held, hp, hh⟩ := h₁.holds
  have hsub : left ⊆ es := List.drop_subset _ _
  have hne (x) (hx : x ∈ left) : x.key ≠ e.key := fun hk =>
    hn (List.mem_map.2 ⟨x, hsub hx, hk⟩)
  have hn₁ : e.key ∉ held.map Envelope.key := fun hm =>
    hn (List.map_subset _ hsub ((hp.map _).mem_iff.1 hm))
  obtain ⟨fs', hwritten, hh', htouches, hlater, hnow⟩ := hh.write hu hn₁ hw
  have hleft : c.Leaves fs₁ fs' left := htouches.leaves (fun x hx => h₁.usable hx) hne
  have hentries (x) (hx : x ∈ left) : c.entryOf fs' x ∈ c.entries fs' := by
    rw [hh'.entries]
    exact List.mem_map.2 ⟨x, List.mem_cons_of_mem _ (hp.mem_iff.2 hx), rfl⟩
  refine ⟨fs', notices, ?_, fun hnew => ⟨⟨e :: held, ?_, hh'⟩, ?_⟩, fun hpast => ?_⟩
  · unfold DiskCache.tryStore
    rw [if_neg (mt (h.contains_iff hu).1 hn), hevict]
    simp only [hw, hwritten]
    rfl
  · exact (hp.cons e).trans (List.perm_append_singleton e _).symm
  · refine List.pairwise_append.2 ⟨h₁.ages_of_leaves (.refl _) hleft, List.pairwise_singleton _ _,
      fun x hx y hy => ?_⟩
    obtain rfl := List.mem_singleton.1 hy
    exact hnew (c.entryOf fs' x) (hentries x hx) (hne x hx ∘ entryName_injective)
  · have hpast₁ : c.Past fs₁ left := hleft₁.past fun x hx => hpast x (hsub hx)
    refine ⟨isNewest_of_past hh' (fun x hx => hp.mem_iff.1 hx) hleft hpast₁ hlater, fun x hx => ?_⟩
    rcases List.mem_append.1 hx with hx | hx
    · exact hleft.past hpast₁ x hx
    · obtain rfl := List.mem_singleton.1 hx
      exact hnow

end InOrder

/-! ## Steps -/

/-- What can be done to a cache. -/
inductive Step where
  | store (e : Envelope)
  | discard (e : Envelope)
  | clear
  deriving DecidableEq, Repr

namespace Step

/-- Do a step. -/
def apply (c : DiskCache) (fs : FileSystem) : Step → FileSystem
  | .store e => (c.store fs e).1
  | .discard e => (c.discard fs e).1
  | .clear => c.clear fs

/-- What a step does to a list of envelopes of which at most `maxItems` are kept. -/
def keep (maxItems : Nat) (es : List Envelope) : Step → List Envelope
  | .store e =>
    if e.key ∈ es.map Envelope.key then es else es.drop (es.length - (maxItems - 1)) ++ [e]
  | .discard e => es.filter fun x => x.key ≠ e.key
  | .clear => []

/-- A step for an envelope whose key can be the name of a file. An envelope to be stored has no time
before the epoch. -/
def Proper (c : DiskCache) : Step → Prop
  | .store e => c.Usable e.key ∧ ∀ t, e.header.sentAt = some t → t.isBeforeEpoch = false
  | .discard e => c.Usable e.key
  | .clear => True

/-- If a step makes a file, then that file is modified after all others that are there. -/
def Ages (c : DiskCache) (fs : FileSystem) : Step → Prop
  | .store e => c.contains fs e = false → c.IsNewest (c.store fs e).1 e
  | .discard _ | .clear => True

instance (c : DiskCache) (step : Step) : Decidable (step.Proper c) :=
  match step with
  | .store e => inferInstanceAs (Decidable (_ ∧ ∀ t ∈ e.header.sentAt, t.isBeforeEpoch = false))
  | .discard e => inferInstanceAs (Decidable (c.Usable e.key))
  | .clear => .isTrue trivial

theorem length_keep_le {maxItems : Nat} (pos : 0 < maxItems) (h : es.length ≤ maxItems)
    (step : Step) : (step.keep maxItems es).length ≤ maxItems := by
  cases step with
  | store e =>
    show (ite _ _ _ : List Envelope).length ≤ maxItems
    split
    · exact h
    · rw [List.length_append, List.length_drop, List.length_singleton]
      omega
  | discard e => exact Nat.le_trans (List.length_filter_le _ _) h
  | clear => exact Nat.zero_le _

/-- A step does to the directory what it does to the list. -/
theorem inOrder_apply {step : Step} (h : c.InOrder fs es) (hp : step.Proper c)
    (ha : step.Ages c fs) : c.InOrder (step.apply c fs) (step.keep c.maxItems es) := by
  cases step with
  | store e =>
    obtain ⟨hu, ht⟩ := hp
    show c.InOrder (c.tryStore fs e).files (ite _ _ _)
    split
    next hm =>
      rw [h.tryStore_of_mem hu hm]
      exact h
    next hn =>
      obtain ⟨fs', notices, htry, hnew, -⟩ := h.tryStore_of_not_mem hu hn ht
      have hcontains : c.contains fs e = false := by
        rw [← Bool.not_eq_true]
        exact mt (h.contains_iff hu).1 hn
      have hnewest : c.IsNewest (c.tryStore fs e).files e := ha hcontains
      rw [htry] at hnewest ⊢
      exact hnew hnewest
  | discard e => exact (h.discard hp).1
  | clear => exact h.clear

theorem ages_of_past {step : Step} (h : c.InOrder fs es) (hp : step.Proper c)
    (hpast : c.Past fs es) : step.Ages c fs ∧ c.Past (step.apply c fs) (step.keep c.maxItems es) := by
  cases step with
  | store e =>
    obtain ⟨hu, ht⟩ := hp
    show (_ → c.IsNewest (c.tryStore fs e).files e) ∧ c.Past (c.tryStore fs e).files (ite _ _ _)
    split
    next hm =>
      rw [h.tryStore_of_mem hu hm, (h.contains_iff hu).2 hm]
      exact ⟨fun hc => absurd hc.symm Bool.false_ne_true, hpast⟩
    next hn =>
      obtain ⟨fs', notices, htry, -, hnew⟩ := h.tryStore_of_not_mem hu hn ht
      rw [htry]
      exact ⟨fun _ => (hnew hpast).1, (hnew hpast).2⟩
  | discard e =>
    exact ⟨trivial, (h.discard hp).2.past fun x hx => hpast x (List.mem_of_mem_filter hx)⟩
  | clear => exact ⟨trivial, fun _ hx => by cases hx⟩

end Step

/-! ## Histories -/

/-- Do steps one after the other, each at a reading of the clock. -/
def run (c : DiskCache) (fs : FileSystem) (steps : List (Int × Step)) : FileSystem :=
  steps.foldl (fun fs x => x.2.apply c { fs with clock := x.1 }) fs

/-- The list of envelopes after steps. -/
def keepAll (maxItems : Nat) (es : List Envelope) (steps : List (Int × Step)) : List Envelope :=
  steps.foldl (fun es x => x.2.keep maxItems es) es

/-- Every file that a step makes is modified after all others that are then there. -/
def AgesAll (c : DiskCache) (fs : FileSystem) : List (Int × Step) → Prop
  | [] => True
  | (time, step) :: more =>
    step.Ages c { fs with clock := time } ∧
      AgesAll c (step.apply c { fs with clock := time }) more

theorem length_keepAll_le {maxItems : Nat} (pos : 0 < maxItems) (h : es.length ≤ maxItems)
    (steps : List (Int × Step)) : (keepAll maxItems es steps).length ≤ maxItems := by
  induction steps generalizing es with
  | nil => exact h
  | cons x more ih => exact ih (Step.length_keep_le pos h x.2)

theorem AgesAll.take {steps : List (Int × Step)} (h : c.AgesAll fs steps) (n : Nat) :
    c.AgesAll fs (steps.take n) := by
  induction steps generalizing fs n with
  | nil =>
    rw [List.take_nil]
    exact h
  | cons x more ih =>
    cases n with
    | zero => trivial
    | succ n => exact ⟨h.1, ih h.2 n⟩

/-- A run does to the directory what its steps do to the list. -/
theorem inOrder_run {steps : List (Int × Step)} (h : c.InOrder fs es)
    (hp : ∀ x ∈ steps, x.2.Proper c) (ha : c.AgesAll fs steps) :
    c.InOrder (c.run fs steps) (keepAll c.maxItems es steps) := by
  induction steps generalizing fs es with
  | nil => exact h
  | cons x more ih =>
    obtain ⟨time, step⟩ := x
    obtain ⟨ha, hmore⟩ := ha
    exact ih (Step.inOrder_apply (h.of_clock time) (hp _ List.mem_cons_self) ha)
      (fun y hy => hp y (List.mem_cons_of_mem _ hy)) hmore

/-- No step reads an earlier time than that at which the one before it was over. -/
def Forward (c : DiskCache) (fs : FileSystem) : List (Int × Step) → Prop
  | [] => True
  | (time, step) :: more =>
    fs.clock ≤ time ∧ Forward c (step.apply c { fs with clock := time }) more

instance decidableForward (c : DiskCache) (fs : FileSystem) :
    (steps : List (Int × Step)) → Decidable (c.Forward fs steps)
  | [] => .isTrue trivial
  | (time, step) :: more =>
    have := decidableForward c (step.apply c { fs with clock := time }) more
    inferInstanceAs (Decidable (_ ∧ _))

/-- With a clock that does not go back, every file that is made is the newest one. -/
theorem agesAll_of_forward {steps : List (Int × Step)} (h : c.InOrder fs es) (hpast : c.Past fs es)
    (hp : ∀ x ∈ steps, x.2.Proper c) (hf : c.Forward fs steps) : c.AgesAll fs steps := by
  induction steps generalizing fs es with
  | nil => trivial
  | cons x more ih =>
    obtain ⟨time, step⟩ := x
    obtain ⟨hclock, hmore⟩ := hf
    have hpast' : c.Past { fs with clock := time } es := fun e he =>
      Int.le_trans (hpast e he) hclock
    have hproper := hp _ List.mem_cons_self
    obtain ⟨ha, hnext⟩ := Step.ages_of_past (h.of_clock time) hproper hpast'
    exact ⟨ha, ih (Step.inOrder_apply (h.of_clock time) hproper ha) hnext
      (fun y hy => hp y (List.mem_cons_of_mem _ hy)) hmore⟩

/-- **The cache is a bounded list, the oldest envelope first.** Open a cache in an empty directory
and do any steps for envelopes whose keys can be names of files, each file being modified after
those that are there when it is made. Then the cache is after each step what the same steps make of
a list: storing an envelope whose key is in the list changes nothing, another one is added at the
end after the first ones have made room for it, discarding takes one out and clearing all of them.
The list is what is loaded, its length is the count and never more than the cache keeps, and the
keys in it are those that the cache contains. An envelope without a time before the epoch can always
be stored. -/
theorem loadAll_run {fs₀ fs : FileSystem} {root : String} {maxItems : Nat} {c : DiskCache}
    (opened : create fs₀ root maxItems = (fs, .ok c)) (empty : fs.list root = .ok [])
    {steps : List (Int × Step)} (proper : ∀ x ∈ steps, x.2.Proper c) (ages : c.AgesAll fs steps)
    (n : Nat) :
    let es := keepAll (max maxItems 1) [] (steps.take n)
    let files := c.run fs (steps.take n)
    (∀ keys, c.loadAll files keys = (es, keys, [])) ∧
    c.count files = es.length ∧ es.length ≤ max maxItems 1 ∧
    ∀ e, c.Usable e.key →
      (c.contains files e = true ↔ e.key ∈ es.map Envelope.key) ∧
      (e.key ∈ es.map Envelope.key → (c.store files e).1 = files) ∧
      ((∀ t, e.header.sentAt = some t → t.isBeforeEpoch = false) →
        (c.tryStore files e).result = .ok (decide (e.key ∉ es.map Envelope.key))) := by
  obtain rfl : c = ⟨root, max maxItems 1⟩ := by
    unfold create at opened
    split at opened
    · cases opened
    · exact (Except.ok.inj (congrArg Prod.snd opened)).symm
  intro es files
  have h : InOrder ⟨root, max maxItems 1⟩ files es :=
    inOrder_run (.of_list_nil empty) (fun x hx => proper x (List.mem_of_mem_take hx)) (ages.take n)
  refine ⟨h.loadAll, h.count, length_keepAll_le (Nat.le_max_right _ _) (Nat.zero_le _) _,
    fun e hu => ⟨h.contains_iff hu, fun hm => ?_, fun ht => ?_⟩⟩
  · show (DiskCache.tryStore _ files e).files = files
    rw [h.tryStore_of_mem hu hm]
  · by_cases hm : e.key ∈ es.map Envelope.key
    · rw [h.tryStore_of_mem hu hm, decide_eq_false (not_not_intro hm)]
    · obtain ⟨fs', notices, htry, -⟩ := h.tryStore_of_not_mem hu hm ht
      rw [htry, decide_eq_true hm]

/-- A cache for two envelopes. -/
def sampleCache : DiskCache := ⟨"/kept", 2⟩

/-- The files when it was opened, in a directory that was made for it. -/
def sampleFiles : FileSystem := (create ⟨[], [], 0⟩ "/kept" 2).1

def shortEnvelope (key : String) (payload : Bytes) : Envelope :=
  ⟨key, ⟨none, none⟩, [⟨.error, payload⟩]⟩

/-- The first of two envelopes is stored again with other contents, discarded and stored once more.
Then a third one takes the place of the second one. -/
def sampleSteps : List (Int × Step) :=
  [(1000000, .store (shortEnvelope "first" [1])), (5000000, .store (shortEnvelope "second" [2])),
    (9000000, .store (shortEnvelope "first" [3])), (9000000, .discard (shortEnvelope "first" [4])),
    (20000000, .store (shortEnvelope "first" [5])), (22000000, .store (shortEnvelope "third" [6]))]

/-- The first envelope is loaded as it was stored last, before the third one, and the second one is not
there anymore. -/
theorem loadAll_sampleSteps :
    sampleCache.loadAll (sampleCache.run sampleFiles sampleSteps) ⟨0, 0, 0⟩ =
        ([shortEnvelope "first" [5], shortEnvelope "third" [6]], ⟨0, 0, 0⟩, []) ∧
      ¬ sampleCache.contains (sampleCache.run sampleFiles sampleSteps) (shortEnvelope "second" []) := by
  have opened : create ⟨[], [], 0⟩ "/kept" 2 = (sampleFiles, .ok sampleCache) := rfl
  have empty : sampleFiles.list "/kept" = .ok [] := by decide +kernel
  have proper : ∀ x ∈ sampleSteps, x.2.Proper sampleCache := by decide +kernel
  have ages : sampleCache.AgesAll sampleFiles sampleSteps :=
    agesAll_of_forward (.of_list_nil empty) (fun _ he => by cases he) proper (by decide +kernel)
  obtain ⟨hload, -, -, hkeys⟩ := loadAll_run opened empty proper ages sampleSteps.length
  rw [List.take_length] at hload hkeys
  refine ⟨hload _, fun hc => ?_⟩
  exact absurd ((hkeys _ (by decide +kernel)).1.1 hc) (by decide +kernel)

end Courier.DiskCache
