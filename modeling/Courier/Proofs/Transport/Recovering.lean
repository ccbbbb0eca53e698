import Courier.Proofs.Cache.Loading
import Courier.Proofs.Transport.Keeping
import Courier.Proofs.Transport.Resending
import Mathlib.Data.List.Nodup
import Mathlib.Data.List.Permutation

/-!
# Recovering after a restart

`recover_spec` says what one pass over a directory that holds some envelopes does: each of them is
sent once, in the order of age, and only the files of those that were delivered are gone. Every run
over a cache on disk leaves such a directory behind (`Kept.exists_holds`), so a transport that is
started over it afterwards recovers what was kept and nothing else (`recovered_of_run`).
-/

namespace Courier.Transport

open Collaborators DiskCache

variable {c : DiskCache} {fs : FileSystem} {es : List Envelope} {t : Transport}
  {w w' : Collaborators}

/-! ## The files that are left -/

/-- The names of the files of the envelopes that were delivered. -/
def delivered (rs : List Recovered) : List String :=
  (rs.filter Recovered.success).map fun r => entryName r.envelope.key

theorem list_filesAfter {stock : List (String × Bytes)} {r : Recovered} (hs : c.Stocked fs stock)
    (hu : c.Usable r.envelope.key) {children : List (String × Node)}
    (h : fs.list c.root = .ok children) :
    (∃ stock', c.Stocked (filesAfter c fs r) stock') ∧ (filesAfter c fs r).list c.root =
      .ok (children.filter fun x => x.1 ∉ delivered [r]) := by
  unfold filesAfter delivered
  cases hr : r.success with
  | false =>
    refine ⟨⟨stock, hs⟩, h.trans ?_⟩
    simp [hr]
  | true =>
    refine ⟨⟨_, hs.discard hu⟩, (hs.list_discard hu h).trans ?_⟩
    simp [hr]

/-- After a pass, the files that are left are those of the envelopes that were not delivered, as they
were. -/
theorem list_foldl_filesAfter {stock : List (String × Bytes)} {rs : List Recovered}
    (hs : c.Stocked fs stock) (hu : ∀ r ∈ rs, c.Usable r.envelope.key)
    {children : List (String × Node)} (h : fs.list c.root = .ok children) :
    (rs.foldl (filesAfter c) fs).list c.root =
      .ok (children.filter fun x => x.1 ∉ delivered rs) := by
  induction rs generalizing fs stock children with
  | nil =>
    have all : (children.filter fun x => x.1 ∉ delivered []) = children :=
      List.filter_eq_self.2 fun x _ => by simp [delivered]
    rw [all]
    exact h
  | cons r more ih =>
    obtain ⟨⟨stock', hs'⟩, h'⟩ := list_filesAfter hs (hu r List.mem_cons_self) h
    rw [List.foldl_cons, ih hs' (fun r hr => hu r (List.mem_cons_of_mem _ hr)) h',
      List.filter_filter]
    have split : delivered (r :: more) = delivered [r] ++ delivered more := by
      unfold delivered
      rw [← List.map_append, ← List.filter_append]
      rfl
    refine congrArg _ (List.filter_congr fun x _ => ?_)
    simp only [split, List.mem_append, not_or, Bool.decide_and, Bool.and_comm]

/-! ## A pass -/

/-- What a pass of recovery did. The envelopes were sent in the order in which their files were
modified; there is one of them for every file, which holds it; and the files of those that were
delivered are gone, while the others are what they were. -/
structure Restored (c : DiskCache) (es : List Envelope) (rs : List Recovered)
    (w w' : Collaborators) : Prop where
  ordered : es.Pairwise (c.Before w.files)
  given : w'.journal.given = w.journal.given ++ es
  held : ∀ e ∈ es, ∃ bytes, e.write? = some bytes ∧ w.files.read (c.entryPath e.key) = .ok bytes
  left : ∃ children, w.files.list c.root = .ok children ∧
    (es.map fun e => entryName e.key).Perm (children.map Prod.fst) ∧
    w'.files.list c.root = .ok (children.filter fun x => x.1 ∉ delivered rs)

/-- **A pass.** A transport at rest that is not limited sends every envelope again that the directory
holds, and reports what the replies to them were. -/
theorem recover_spec {held : List Envelope} (hh : c.Holds w.files held) (hq : t.queue.Resting)
    (hl : t.limited = false) (hg : w.gate.answer = .ok true)
    (hr : ∀ i, (w.connection.replyAt i).isHeld = false) :
    ∃ es w', es.Perm held ∧ recover c t w = (outcomes w.connection es, t, w') ∧
      Restored c es (outcomes w.connection es) w w' := by
  let es := held.mergeSort (c.isBefore w.files)
  have hperm : es.Perm held := List.mergeSort_perm held _
  have hkeys : ({ w with keys := w.keys }).logAll here [] = w := by
    unfold logAll
    rw [List.map_nil, List.append_nil]
  obtain ⟨w', hrun, hsent, hfiles⟩ := resendAll_spec hq hl hg hr c es
  refine ⟨es, w', hperm, ?_, pairwise_before hh.nodup, hsent.given,
    fun e he => hh.read (hperm.mem_iff.1 he), ?_⟩
  · unfold recover
    rw [hh.loadAll]
    simp only [hkeys]
    exact hrun
  · obtain ⟨children, hlist, hnames⟩ := hh.list
    obtain ⟨stock, hs, -⟩ := hh.stocked
    refine ⟨children, hlist, ?_, ?_⟩
    · rw [hnames]
      exact hperm.map _
    · rw [hfiles]
      refine list_foldl_filesAfter hs (fun r hr => ?_) hlist
      obtain ⟨i, hi, rfl⟩ := List.mem_mapIdx.1 hr
      exact hh.usable _ (hperm.mem_iff.1 (List.getElem_mem hi))

/-! ## What a run leaves behind -/

theorem eq_subject_of_kept? {r : Record} {left : Envelope} (h : r.kept? = some left) :
    left = r.subject := by
  unfold Record.kept? at h
  unfold Record.subject
  split at h <;> simp_all

theorem nodup_filterMap_kept? {ledger : Ledger} (hn : (ledger.map fun r => r.envelope.key).Nodup)
    (hk : ∀ r ∈ ledger, r.subject.key = r.envelope.key) :
    ((ledger.filterMap Record.kept?).map Envelope.key).Nodup := by
  rw [List.Nodup, List.pairwise_map] at hn ⊢
  rw [List.pairwise_filterMap]
  refine hn.imp_of_mem fun {r r'} hr hr' hne e he e' he' => ?_
  rw [eq_subject_of_kept? he, eq_subject_of_kept? he', hk r hr, hk r' hr']
  exact hne

theorem exists_map_eq {α β : Type} {P : α → Prop} {f : α → β} {ys : List β}
    (h : ∀ y ∈ ys, ∃ x, P x ∧ f x = y) : ∃ xs : List α, xs.map f = ys ∧ ∀ x ∈ xs, P x := by
  induction ys with
  | nil => exact ⟨[], rfl, fun _ hx => by cases hx⟩
  | cons y more ih =>
    obtain ⟨x, hx, rfl⟩ := h y List.mem_cons_self
    obtain ⟨xs, rfl, hxs⟩ := ih fun y hy => h y (List.mem_cons_of_mem _ hy)
    exact ⟨x :: xs, rfl, List.forall_mem_cons.2 ⟨hx, hxs⟩⟩

section Stock

variable {ledger : Ledger} {stock : List (String × Bytes)}

theorem exists_kept_of_mem (hs : c.Stocked fs stock)
    (hold : ∀ r ∈ ledger, stock.lookup r.envelope.key = r.kept?.bind Envelope.write?)
    (hkeys : ∀ p ∈ stock, ∃ r ∈ ledger, p.1 = r.envelope.key)
    (hk : ∀ r ∈ ledger, r.subject.key = r.envelope.key) {p : String × Bytes} (hp : p ∈ stock) :
    ∃ e, e ∈ ledger.filterMap Record.kept? ∧ (e.key, e.write?) = (p.1, some p.2) := by
  obtain ⟨r, hr, hpr⟩ := hkeys p hp
  have hlook := hold r hr
  rw [← hpr, FileSystem.lookup_of_mem hs.nodup hp] at hlook
  obtain ⟨left, hleft, hwrite⟩ := Option.bind_eq_some_iff.1 hlook.symm
  refine ⟨left, List.mem_filterMap.2 ⟨r, hr, hleft⟩, Prod.ext ?_ hwrite⟩
  show left.key = p.1
  rw [eq_subject_of_kept? hleft, hk r hr, hpr]

theorem exists_mem_of_kept
    (hold : ∀ r ∈ ledger, stock.lookup r.envelope.key = r.kept?.bind Envelope.write?)
    (hst : ∀ r ∈ ledger, ∃ bytes, Storable c r bytes) {e : Envelope}
    (he : e ∈ ledger.filterMap Record.kept?) : ∃ bytes, (e.key, bytes) ∈ stock := by
  obtain ⟨r, hr, hleft⟩ := List.mem_filterMap.1 he
  obtain ⟨bytes, hb⟩ := hst r hr
  have hlook := hold r hr
  rw [hleft, Option.bind_some, eq_subject_of_kept? hleft, hb.written] at hlook
  obtain ⟨before, after, hstock, -⟩ := List.lookup_eq_some_iff.1 hlook
  rw [eq_subject_of_kept? hleft, hb.key, hstock]
  exact ⟨bytes, List.mem_append_right _ List.mem_cons_self⟩

/-- The directory holds the envelopes that are kept for the records. -/
theorem Kept.exists_holds (h : Kept c fs ledger)
    (hn : (ledger.map fun r => r.envelope.key).Nodup)
    (hst : ∀ r ∈ ledger, ∃ bytes, Storable c r bytes) :
    ∃ es, es.Perm (ledger.filterMap Record.kept?) ∧ c.Holds fs es := by
  obtain ⟨stock, hs, hold, hkeys⟩ := h
  have hk : ∀ r ∈ ledger, r.subject.key = r.envelope.key := fun r hr =>
    (hst r hr).elim fun _ hb => hb.key
  have hkept := nodup_filterMap_kept? hn hk
  obtain ⟨es, hmap, hmem⟩ : ∃ es : List Envelope,
      es.map (fun e => (e.key, e.write?)) = stock.map (fun p => (p.1, some p.2)) ∧
        ∀ e ∈ es, e ∈ ledger.filterMap Record.kept? := by
    refine exists_map_eq fun x hx => ?_
    obtain ⟨p, hp, rfl⟩ := List.mem_map.1 hx
    exact exists_kept_of_mem hs hold hkeys hk hp
  have hes : stock.map Prod.fst = es.map Envelope.key := Holds.map_key hmap.symm
  refine ⟨es, ?_, ⟨stock, hs, hmap.symm⟩, fun e he => ?_⟩
  · have hne : (es.map Envelope.key).Nodup := hes ▸ hs.nodup
    refine (List.perm_ext_iff_of_nodup (hne.of_map _) (hkept.of_map _)).2 fun e =>
      ⟨hmem e, fun he => ?_⟩
    -- its file is in stock, and no other envelope has its key
    obtain ⟨bytes, hin⟩ := exists_mem_of_kept hold hst he
    have hkey : e.key ∈ es.map Envelope.key := hes ▸ List.mem_map.2 ⟨_, hin, rfl⟩
    obtain ⟨e', he', heq⟩ := List.mem_map.1 hkey
    rwa [← List.inj_on_of_nodup_map hkept (hmem e' he') he heq]
  · obtain ⟨r, hr, hleft⟩ := List.mem_filterMap.1 (hmem e he)
    obtain ⟨bytes, hb⟩ := hst r hr
    rw [eq_subject_of_kept? hleft]
    exact hb.usable

end Stock

/-! ## Starting again -/

/-- A transport starts over a directory that is there, and leaves the files as they are. -/
theorem ofSettings_of_holds {settings : Settings} (h : (cacheOf settings).Holds w.files es)
    (hv : settings.validate = .ok ()) (limited : Bool) :
    ofSettings settings limited w =
      (.ok ⟨settings.transport, limited, Queue.create settings.transport.maxQueueSize, false⟩,
        ({ w with cache := .disk (cacheOf settings) }).log here
          (.transportStarted settings.transport.maxQueueSize settings.transport.closeGraceSecs)) := by
  obtain ⟨hq, hi⟩ := Settings.validate_eq_ok_iff.1 hv
  have hcache : settings.cache.validate = .ok () := if_neg hi
  have htransport : settings.transport.validate = .ok () := if_neg hq
  obtain ⟨stock, ⟨l, hf⟩, -⟩ := h.stocked
  have hdir : w.files.makeDirectories settings.cache.dir = (w.files, .ok ()) := hf.makeDirectories
  unfold ofSettings DiskCache.ofSettings DiskCache.create start
  simp only [hv, hcache, htransport, hdir, Nat.max_eq_left (Nat.one_le_iff_ne_zero.2 hi)]
  rfl

/-! ## Whole runs -/

/-- **Recovering.** Take any run over a directory that was empty, with submissions that were fresh.
Start a transport without limits over what the run left there, with an open gate and replies that
nothing holds back. A pass of recovery sends again what is kept for the records, each envelope once,
reports what the replies were, and leaves the files of what was not delivered as they were. -/
theorem recovered_of_run {settings again : Settings} {limited : Bool} {w w' w₂ : Collaborators}
    {t : Transport} (hu : Unused w) (hs : ofSettings settings limited w = (.ok t, w'))
    (hempty : w'.files.list settings.cache.dir = .ok []) (moves : List Move)
    (hfresh : Fresh (cacheOf settings) w' (moves.flatMap Move.sends))
    (hfiles : w₂.files = (Scene.run moves ⟨t, w', []⟩).world.files)
    (hdir : again.cache.dir = settings.cache.dir) (hvalid : again.validate = .ok ())
    (hgate : w₂.gate.answer = .ok true)
    (hreplies : ∀ i, (w₂.connection.replyAt i).isHeld = false) :
    ∃ t₂ w₃ es w₄, ofSettings again false w₂ = (.ok t₂, w₃) ∧ w₃.files = w₂.files ∧
      es.Perm ((Scene.run moves ⟨t, w', []⟩).ledger.filterMap Record.kept?) ∧
      recover (cacheOf again) t₂ w₃ = (outcomes w₂.connection es, t₂, w₄) ∧
      Restored (cacheOf again) es (outcomes w₂.connection es) w₃ w₄ := by
  let s := Scene.run moves ⟨t, w', []⟩
  have hk : Keeping (cacheOf settings) w' s := (keeping_start hu hs hempty).run moves
  have hsub : s.submitted = moves.flatMap Move.sends := Scene.submitted_run moves _
  rw [← hsub] at hfresh
  obtain ⟨held, hheld, hholds⟩ := (hk.kept hfresh).exists_holds (nodup_keys hfresh)
    fun r hr => exists_storable hfresh hr (hk.left r hr)
  have hholds' : (cacheOf again).Holds w₂.files held := by
    rw [hfiles]
    exact hholds.of_root hdir
  have hstart := ofSettings_of_holds hholds' hvalid false
  let t₂ : Transport :=
    ⟨again.transport, false, Queue.create again.transport.maxQueueSize, false⟩
  let w₃ := ({ w₂ with cache := .disk (cacheOf again) }).log here
    (.transportStarted again.transport.maxQueueSize again.transport.closeGraceSecs)
  have hrest : t₂.queue.Resting := Queue.resting_create again.transport.maxQueueSize
  obtain ⟨es, w₄, hperm, hrun, hrestored⟩ :=
    recover_spec (t := t₂) (w := w₃) hholds' hrest rfl hgate hreplies
  exact ⟨t₂, w₃, es, w₄, hstart, rfl, hperm.trans hheld, hrun, hrestored⟩

/-- Two envelopes wait when the time of a close is up, and the worker cancels them. -/
def keptMoves : List Move :=
  [.send (sampleEnvelope "old") none, .send (sampleEnvelope "new") none, .beginClose, .endClose,
    .work, .work, .work, .work, .work, .work, .work]

def keptScene : Scene :=
  .run keptMoves ⟨⟨sampleSettings, false, Queue.create 2, false⟩, sampleDisk, []⟩

theorem fresh_keptMoves :
    Fresh (cacheOf sampleDirectory) sampleDisk (keptMoves.flatMap Move.sends) where
  uncached p hp := by
    rcases List.mem_pair.1 hp with rfl | rfl <;> rfl
  usable p hp := by
    rcases List.mem_pair.1 hp with rfl | rfl <;> constructor <;> decide +kernel
  inTime p hp time ht := by
    rcases List.mem_pair.1 hp with rfl | rfl <;> cases ht
  keys := by decide +kernel
  room := by decide

/-- A world after a restart, with the files that they were kept in. The server refuses what it is sent
first, and takes the rest. -/
def restartedWorld : Collaborators :=
  { sampleWorld .none with
    files := keptScene.world.files
    connection := ⟨[.answer (.refused (some 500))], .answer (.accepted 200)⟩ }

/-- The one that was sent first comes first, though its name is the greater one. -/
theorem eq_of_before_restartedWorld {es : List Envelope}
    (hperm : es.Perm [sampleEnvelope "old", sampleEnvelope "new"])
    (h : es.Pairwise ((cacheOf sampleDirectory).Before restartedWorld.files)) :
    es = [sampleEnvelope "old", sampleEnvelope "new"] := by
  refine (List.perm_pair.1 hperm).resolve_right ?_
  rintro rfl
  have hbefore := List.rel_of_pairwise_cons h List.mem_cons_self
  revert hbefore
  unfold Before
  decide +kernel

/-- After a restart the older envelope is refused and stays as it was, and the other one is delivered
and its file is gone. -/
theorem recovered_of_cancelled :
    ∃ t₂ w₃ w₄ old new, ofSettings sampleDirectory false restartedWorld = (.ok t₂, w₃) ∧
      restartedWorld.files.list "/kept" = .ok [("new.envelope", new), ("old.envelope", old)] ∧
      recover (cacheOf sampleDirectory) t₂ w₃ =
        ([⟨sampleEnvelope "old", false, false⟩, ⟨sampleEnvelope "new", true, false⟩], t₂, w₄) ∧
      w₄.files.list "/kept" = .ok [("old.envelope", old)] := by
  have hempty : sampleDisk.files.list "/kept" = .ok [] := by decide +kernel
  have hstart : ofSettings sampleDirectory false (sampleWorld .none) =
    (.ok ⟨sampleSettings, false, Queue.create 2, false⟩, sampleDisk) := rfl
  have hkept : keptScene.ledger.filterMap Record.kept? =
      [sampleEnvelope "old", sampleEnvelope "new"] := by
    decide +kernel
  have hreplies (i : Nat) : (restartedWorld.connection.replyAt i).isHeld = false := by
    rcases i with _ | i <;> rfl
  have hnames : (restartedWorld.files.list "/kept").map (List.map Prod.fst) =
      .ok ["new.envelope", "old.envelope"] := by
    decide +kernel
  obtain ⟨t₂, w₃, es, w₄, hagain, hfiles, hperm, hrun, hrestored⟩ :=
    @recovered_of_run sampleDirectory sampleDirectory false (sampleWorld .none) sampleDisk
      restartedWorld _ (unused_sampleWorld .none) hstart hempty keptMoves fresh_keptMoves
      (by simp only [restartedWorld, keptScene]) rfl rfl rfl hreplies
  have hordered := hrestored.ordered
  rw [hfiles] at hordered
  obtain rfl := eq_of_before_restartedWorld (hperm.trans (.of_eq hkept)) hordered
  obtain ⟨children, hlist, -, hleft⟩ := hrestored.left
  rw [hfiles] at hlist
  have hlist : restartedWorld.files.list "/kept" = .ok children := hlist
  rw [hlist] at hnames
  obtain ⟨⟨_, new⟩, rest, rfl, rfl, hrest⟩ := List.map_eq_cons_iff.1 (Except.ok.inj hnames)
  obtain ⟨⟨_, old⟩, more, rfl, rfl, hmore⟩ := List.map_eq_cons_iff.1 hrest
  obtain rfl := List.map_eq_nil_iff.1 hmore
  refine ⟨t₂, w₃, w₄, old, new, hagain, hlist, hrun, hleft.trans ?_⟩
  rfl

end Courier.Transport
