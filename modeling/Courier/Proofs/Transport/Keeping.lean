import Courier.Proofs.Transport.Kept

/-!
# What a transport keeps on disk

In every run over a cache on disk, from an empty directory and with fresh submissions for which there
is room, the directory holds exactly what the records of the ledger say (`kept_of_run`): no envelope
is lost without a word, and no copy stays behind.
-/

namespace Courier.Transport

open Collaborators DiskCache

variable {c : DiskCache} {s s' : Scene} {w w' : Collaborators} {fs : FileSystem}

/-! ## Moves -/

/-- What holds in every run over a cache on disk that begins with the abilities of `w₀`. -/
structure Keeping (c : DiskCache) (w₀ : Collaborators) (s : Scene) : Prop where
  balanced : s.Balanced
  disk : s.world.cache = .disk c
  capabilities : ∀ hint, s.world.capabilities hint = w₀.capabilities hint
  left : ∀ r ∈ s.ledger, r.subject.key = r.envelope.key ∧ r.subject.header = r.envelope.header
  kept : Fresh c w₀ s.submitted → Kept c s.world.files s.ledger

theorem left?_eq_some {t : Transport} {e left : Envelope} (h : t.left? e w = some left) :
    left.key = e.key ∧ left.header = e.header := by
  unfold left? RateLimits.filter at h
  split at h
  · simp only at h
    split at h
    · cases h
      exact ⟨rfl, rfl⟩
    · split at h
      · cases h
      · cases h
        exact ⟨rfl, rfl⟩
  · cases h
    exact ⟨rfl, rfl⟩

theorem exists_storable {w₀ : Collaborators} {r : Record} (hf : Fresh c w₀ s.submitted)
    (hr : r ∈ s.ledger)
    (hl : r.subject.key = r.envelope.key ∧ r.subject.header = r.envelope.header) :
    ∃ bytes, Storable c r bytes := by
  have hm : (r.envelope, r.hint) ∈ s.submitted := List.mem_map.2 ⟨r, hr, rfl⟩
  cases hw : r.subject.write? with
  | none =>
    obtain ⟨time, ht, hb⟩ := Envelope.write?_eq_none_iff.1 hw
    rw [hl.2] at ht
    rw [hf.inTime _ hm time ht] at hb
    cases hb
  | some bytes => exact ⟨bytes, hl.1, by rw [hl.1]; exact hf.usable _ hm, hw⟩

theorem uncached_of_fresh {w₀ : Collaborators} {r : Record} (hf : Fresh c w₀ s.submitted)
    (hr : r ∈ s.ledger) (hc : r.can = w₀.capabilities r.hint) : r.can.cached = false := by
  rw [hc]
  exact hf.uncached (r.envelope, r.hint) (List.mem_map.2 ⟨r, hr, rfl⟩)

theorem nodup_keys {w₀ : Collaborators} (hf : Fresh c w₀ s.submitted) :
    (s.ledger.map fun r => r.envelope.key).Nodup := by
  have hk := hf.keys
  rw [Scene.submitted, List.map_map] at hk
  exact hk

theorem length_le_of_fresh {w₀ : Collaborators} (hf : Fresh c w₀ s.submitted) :
    s.ledger.length ≤ c.maxItems := by
  have h := hf.room
  rw [Scene.submitted, List.length_map] at h
  exact h

/-- A new record is stored and discarded as its calls say. -/
theorem Keeping.entered {w₀ : Collaborators} (hk : Keeping c w₀ s) {r : Record}
    (hf : Fresh c w₀ s'.submitted) (hbefore : Fresh c w₀ s.submitted)
    (hledger : s'.ledger = s.ledger ++ [r])
    (hl : r.subject.key = r.envelope.key ∧ r.subject.header = r.envelope.header)
    (hc : r.can.cached = false)
    (hg : Grows (nextPlace s.world) (r.effects s.world.submissions) (numbered s.world) s'.world) :
    Kept c s'.world.files s'.ledger := by
  obtain ⟨stock, hs, hold, hkeys⟩ := hk.kept hbefore
  have hmem : r ∈ s'.ledger := by rw [hledger]; exact List.mem_append_right _ List.mem_cons_self
  obtain ⟨bytes, hst⟩ := exists_storable hf hmem hl
  have hn := nodup_keys hf
  rw [hledger, List.map_append, List.nodup_append] at hn
  have hne : ∀ r' ∈ s.ledger, r'.envelope.key ≠ r.envelope.key := fun r' hr' =>
    hn.2.2 _ (List.mem_map.2 ⟨r', hr', rfl⟩) _ List.mem_cons_self
  have hroom := length_le_of_fresh hf
  have hfiles : s'.world.files = (Cache.disk c).replay s.world.files
      (r.effects s.world.submissions) := by
    rw [hg.files]
    show s.world.cache.replay s.world.files _ = _
    rw [hk.disk]
  rw [hfiles]
  rw [hledger] at hroom ⊢
  refine kept_replay hs hold hkeys (.append hne) hroom hst (about_effects r _) (b := false) ?_
    (keptAfter_effects hc _)
  -- nothing is in stock under a key that is new
  show stock.lookup r.envelope.key = none
  rw [List.lookup_eq_none_iff]
  intro p hp
  obtain ⟨r', hr', hp'⟩ := hkeys p hp
  rw [hp']
  simpa using (hne r' hr').symm

/-- A record whose task goes on is stored and discarded as its calls say. -/
theorem Keeping.went {w₀ : Collaborators} (hk : Keeping c w₀ s) {t : Task} {before after : Stage}
    {u : List Event} (hf : Fresh c w₀ s'.submitted) (hbefore : Fresh c w₀ s.submitted)
    (hhas : s.ledger.Has t before) (hledger : s'.ledger = s.ledger.enter t after)
    (hg : Grows (t.place .worker) u s.world s'.world)
    (he : after.effects t (s.world.capabilities t.hint) =
      before.effects t (s.world.capabilities t.hint) ++ u) :
    Kept c s'.world.files s'.ledger := by
  obtain ⟨stock, hs, hold, hkeys⟩ := hk.kept hbefore
  obtain ⟨n, r₀, hn, hfate, ht⟩ := hhas
  have hsub : t.submission = some n := by rw [ht]; rfl
  have hmem₀ := List.mem_of_getElem? hn
  have hcan := hk.balanced.booked.abilities n r₀ hn
  have hhint : r₀.hint = t.hint := by rw [ht]; rfl
  let r : Record := { r₀ with fate := .passed t.envelope after }
  have hr : Replaces s.ledger s'.ledger r := by
    rw [hledger]
    exact .enter (nodup_keys hbefore) hsub hn after
  have hc₀ : r₀.can.cached = false :=
    uncached_of_fresh hbefore hmem₀ (hcan.trans (hk.capabilities r₀.hint))
  have hsubject : r₀.subject = r.subject := by
    unfold Record.subject
    rw [hfate]
  have hl := hk.left r₀ hmem₀
  rw [hsubject] at hl
  obtain ⟨bytes, hst⟩ := exists_storable hf hr.mem hl
  -- what was done for the record before, and what is done now
  have heff : r.effects n = r₀.effects n ++ u := by
    have now : r.effects n = after.effects t r₀.can := Record.effects_of_fate rfl ht
    rw [now, Record.effects_of_fate hfate ht, hcan, hhint]
    exact he
  have habout : About r.subject u := by
    have h := about_effects r n
    rw [heff] at h
    exact fun event hu => h event (List.mem_append_right _ hu)
  have hfiles : s'.world.files = (Cache.disk c).replay s.world.files u := by
    rw [hg.files, hk.disk]
  rw [hfiles]
  refine kept_replay hs hold hkeys hr (length_le_of_fresh hf) hst habout (b := r₀.kept?.isSome) ?_ ?_
  · rw [hold r₀ hmem₀]
    exact bind_kept? r₀ (by rw [hsubject]; exact hst.written)
  · rw [← keptAfter_effects hc₀ n, ← keptAfter_append, ← heff]
    exact keptAfter_effects (r := r) hc₀ n

theorem subject_of_from {r : Record} {e : Envelope} {hint : Option HintId} (h : r.From s e hint) :
    r.subject.key = r.envelope.key ∧ r.subject.header = r.envelope.header := by
  have he : r.envelope = e := congrArg Prod.fst h.submitted
  have hl := h.left
  unfold Record.left? at hl
  unfold Record.subject
  cases hf : r.fate with
  | dropped fault => exact ⟨rfl, rfl⟩
  | passed left stage =>
    rw [hf] at hl
    rw [he]
    exact left?_eq_some hl.symm

theorem Keeping.advance {w₀ : Collaborators} (hk : Keeping c w₀ s) (hp : Scene.Passes s s')
    (hfresh : Fresh c w₀ s'.submitted → Fresh c w₀ s.submitted) : Keeping c w₀ s' where
  balanced := ⟨hp.placed, hk.balanced.booked.advance hp.advance, hp.closed⟩
  disk := hp.advance.disk hk.disk
  capabilities hint := (hp.advance.capabilities hint).trans (hk.capabilities hint)
  left r hr := by
    cases hp.advance with
    | quiet ledger _ =>
      rw [ledger] at hr
      exact hk.left r hr
    | entered r' ledger comes =>
      rw [ledger] at hr
      rcases List.mem_append.1 hr with hr | hr
      · exact hk.left r hr
      · rw [List.mem_singleton.1 hr]
        exact subject_of_from comes
    | went t before after _ has ledger =>
      obtain ⟨n, hn⟩ := List.mem_iff_getElem?.1 hr
      rw [ledger] at hn
      rcases has.getElem?_enter after hn with ⟨-, r₀, hr₀, rfl, hf, -⟩ | ⟨-, hn⟩
      · have hl := hk.left r₀ (List.mem_of_getElem? hr₀)
        unfold Record.subject at hl
        rw [hf] at hl
        exact hl
      · exact hk.left r (List.mem_of_getElem? hn)
  kept hf := by
    have hbefore := hfresh hf
    cases hp.advance with
    | quiet ledger world =>
      rw [ledger, world.files]
      exact hk.kept hbefore
    | entered r ledger comes enters grows =>
      have hc : r.can.cached = false := by
        refine uncached_of_fresh hf ?_ (comes.can.trans (hk.capabilities r.hint))
        rw [ledger]
        exact List.mem_append_right _ List.mem_cons_self
      exact hk.entered hf hbefore ledger (subject_of_from comes) hc grows
    | went t before after u has ledger grows effects cause =>
      exact hk.went hf hbefore has ledger grows effects

theorem Keeping.move {w₀ : Collaborators} (hk : Keeping c w₀ s) (m : Move) :
    Keeping c w₀ (s.move m) := by
  refine hk.advance (hk.balanced.passes m) fun hf => ?_
  rw [Scene.submitted_move] at hf
  exact hf.of_append

theorem Keeping.run {w₀ : Collaborators} (hk : Keeping c w₀ s) (moves : List Move) :
    Keeping c w₀ (Scene.run moves s) :=
  Scene.run_induction (fun _ m h => h.move m) hk moves

/-! ## Whole runs -/

/-- The cache of a transport that was started over a directory. -/
def cacheOf (settings : Settings) : DiskCache := ⟨settings.cache.dir, settings.cache.maxItems⟩

/-- Starting over a directory is starting over a cache on disk. -/
theorem exists_start_of_ofSettings {settings : Settings} {limited : Bool} {t : Transport}
    (h : ofSettings settings limited w = (.ok t, w')) :
    ∃ files, start settings.transport limited { w with cache := .disk (cacheOf settings), files } =
      (.ok t, w') := by
  unfold ofSettings at h
  cases hv : settings.validate with
  | error fault =>
    rw [hv] at h
    cases h
  | ok _ =>
    simp only [hv] at h
    obtain ⟨-, hm⟩ := Settings.validate_eq_ok_iff.1 hv
    cases hd : DiskCache.ofSettings w.files settings.cache with
    | mk files opened =>
      rw [hd] at h
      cases opened with
      | error fault => cases h
      | ok cache =>
        have hc : cache = cacheOf settings := by
          unfold DiskCache.ofSettings DiskCache.create at hd
          split at hd
          · cases hd
          · split at hd
            · cases hd
            · cases hd
              unfold cacheOf
              rw [Nat.max_eq_left (Nat.one_le_iff_ne_zero.2 hm)]
        rw [← hc]
        exact ⟨files, h⟩

theorem keeping_start {settings : Settings} {limited : Bool} {t : Transport} (hu : Unused w)
    (h : ofSettings settings limited w = (.ok t, w'))
    (hempty : w'.files.list settings.cache.dir = .ok []) :
    Keeping (cacheOf settings) w' ⟨t, w', []⟩ := by
  obtain ⟨files, hs⟩ := exists_start_of_ofSettings h
  have hb := balanced_start (w := { w with cache := .disk (cacheOf settings), files })
    ⟨hu.submissions, hu.journal⟩ hs
  refine ⟨hb, ?_, fun _ => rfl, fun r hr => (by cases hr), fun _ => ?_⟩
  · unfold start at hs
    split at hs
    · cases hs
    · cases hs
      rfl
  · exact ⟨[], .of_list_nil hempty, fun r hr => (by cases hr), fun p hp => by cases hp⟩

/-- The directory shows what the records say. -/
theorem Kept.onDisk {ledger : Ledger} (h : Kept c fs ledger) {r : Record} (hr : r ∈ ledger)
    (hu : c.Usable r.envelope.key) {bytes : Bytes} (hw : r.subject.write? = some bytes) :
    r.OnDisk c fs := by
  obtain ⟨stock, hs, hold, -⟩ := h
  have hread := hs.read hu
  rw [hold r hr] at hread
  unfold Record.OnDisk
  cases hk : r.kept? with
  | none =>
    rw [hk] at hread
    exact hread
  | some left =>
    have hb := bind_kept? r hw
    rw [hb, hk] at hread
    rw [hk] at hb
    exact ⟨bytes, hb, hread⟩

theorem Kept.list {ledger : Ledger} (h : Kept c fs ledger) :
    ∃ children, fs.list c.root = .ok children ∧
      ∀ name ∈ children.map Prod.fst, ∃ r ∈ ledger, r.kept?.isSome = true ∧
        name = entryName r.envelope.key := by
  obtain ⟨stock, hs, hold, hkeys⟩ := h
  obtain ⟨children, hl, hn⟩ := hs.list
  refine ⟨children, hl, fun name hname => ?_⟩
  rw [hn] at hname
  obtain ⟨p, hp, rfl⟩ := List.mem_map.1 hname
  obtain ⟨r, hr, hk⟩ := hkeys p hp
  refine ⟨r, hr, ?_, by rw [hk]⟩
  cases hr' : r.kept? with
  | some left => rfl
  | none =>
    have hlook := hold r hr
    rw [hr', ← hk] at hlook
    simpa using List.lookup_eq_none_iff.1 hlook p hp

theorem not_mem_effects_of_dropped {r : Record} {fault : Option Fault} (hf : r.fate = .dropped fault)
    (n : SubmissionId) (e : Envelope) : .send e ∉ r.effects n := by
  intro h
  have hc : .send e ∈ r.calls := by
    rw [← calls_effects r n]
    exact List.mem_filter.2 ⟨h, rfl⟩
  unfold Record.calls at hc
  rw [hf] at hc
  simp only [List.mem_ite_nil_right, List.mem_singleton] at hc
  cases hc.2

/-- Once the worker waits, no task is about to be disposed of. -/
theorem not_dropping_of_settled (hb : s.Balanced) (hs : s.Settled) {n : SubmissionId} {r : Record}
    (hr : s.ledger[n]? = some r) (left : Envelope) : r.fate ≠ .passed left .dropping := by
  intro hf
  have hw := (hb.placed.hand (r.task n left) .dropping rfl).2 ⟨n, r, hr, hf, rfl⟩
  rcases Queue.step_eq_none_iff.1 hs with ⟨hw', -⟩ | ⟨t, reply, hw', -⟩ | hw' | ⟨fault, hw'⟩
  all_goals
    rw [hw'] at hw
    cases hw

/-- **Keeping.** Take any run over a directory that was empty, with submissions that were fresh. There
is a record of every submission, about what was submitted and what the limits left of it. Every record
says what is in its file, and of what became of its submission; nothing else is in the directory. -/
theorem kept_of_run {settings : Settings} {limited : Bool} {w w' : Collaborators} {t : Transport}
    (hu : Unused w) (hs : ofSettings settings limited w = (.ok t, w'))
    (hempty : w'.files.list settings.cache.dir = .ok []) (moves : List Move)
    (hfresh : Fresh (cacheOf settings) w' (moves.flatMap Move.sends)) :
    let s := Scene.run moves ⟨t, w', []⟩
    Scene.Recorded moves ⟨t, w', []⟩ ∧
    (∀ (n : SubmissionId) (r : Record), s.ledger[n]? = some r →
      r.OnDisk (cacheOf settings) s.world.files ∧
      s.world.journal.effects n = r.effects n ∧
      (∀ fault, r.fate = .dropped fault → ∀ e, .send e ∉ s.world.journal.effects n) ∧
      (s.Settled → ∀ left, r.fate ≠ .passed left .dropping)) ∧
    ∃ children, s.world.files.list settings.cache.dir = .ok children ∧
      ∀ name ∈ children.map Prod.fst, ∃ r ∈ s.ledger, r.kept?.isSome = true ∧
        name = entryName r.envelope.key := by
  intro s
  have hk₀ := keeping_start hu hs hempty
  have hk : Keeping (cacheOf settings) w' s := hk₀.run moves
  have hsub : s.submitted = moves.flatMap Move.sends := Scene.submitted_run moves _
  rw [← hsub] at hfresh
  have hkept := hk.kept hfresh
  refine ⟨hk₀.balanced.recorded rfl moves, fun n r hr => ?_, hkept.list⟩
  have hmem := List.mem_of_getElem? hr
  have heff := hk.balanced.booked.effects n r hr
  obtain ⟨bytes, hst⟩ := exists_storable hfresh hmem (hk.left r hmem)
  refine ⟨hkept.onDisk hmem ?_ hst.written, heff, ?_, ?_⟩
  · rw [← hst.key]
    exact hst.usable
  · intro fault hf e
    rw [heff]
    exact not_mem_effects_of_dropped hf n e
  · exact fun hsettled left => not_dropping_of_settled hk.balanced hsettled hr left

/-- A directory that is made when the transport starts. -/
def sampleDirectory : Settings := ⟨sampleSettings, ⟨"/kept", 2⟩⟩

def sampleDisk : Collaborators := (ofSettings sampleDirectory false (sampleWorld .none)).2

/-- An envelope waits when the time of a close is up. -/
def cancellingMoves : List Move :=
  [.send (sampleEnvelope "sample") none, .beginClose, .endClose, .work, .work, .work]

def cancelledScene : Scene :=
  .run cancellingMoves ⟨⟨sampleSettings, false, Queue.create 2, false⟩, sampleDisk, []⟩

theorem fresh_cancellingMoves :
    Fresh (cacheOf sampleDirectory) sampleDisk (cancellingMoves.flatMap Move.sends) where
  uncached p hp := by
    obtain rfl := List.mem_singleton.1 hp
    rfl
  usable p hp := by
    obtain rfl := List.mem_singleton.1 hp
    constructor <;> decide +kernel
  inTime p hp := by
    obtain rfl := List.mem_singleton.1 hp
    intro time ht
    cases ht
  keys := by decide +kernel
  room := by decide

/-- The cancelled envelope is in its file. -/
theorem kept_of_cancelled :
    ∃ bytes, (sampleEnvelope "sample").write? = some bytes ∧
      cancelledScene.world.files.read "/kept/sample.envelope" = .ok bytes := by
  have hempty : sampleDisk.files.list "/kept" = .ok [] := by decide +kernel
  have hr : cancelledScene.ledger[0]? = some ⟨sampleEnvelope "sample", none, {},
    .passed (sampleEnvelope "sample") (.cancelled none)⟩ := by decide +kernel
  have hstart : ofSettings sampleDirectory false (sampleWorld .none) =
    (.ok ⟨sampleSettings, false, Queue.create 2, false⟩, sampleDisk) := rfl
  have h := kept_of_run (unused_sampleWorld .none) hstart hempty cancellingMoves fresh_cancellingMoves
  exact (h.2.1 0 _ hr).1

end Courier.Transport
