import Courier.Proofs.Transport.Balance

/-!
# Draining a closed transport

Once a transport is closed and its worker has nothing left to do, the queue is terminated and every
submission is over, with one exception: the cache broke off when it stored the envelope of a cancelled
task. That ends the worker, and what still waited then waits for ever. `drained_iff_of_run` says that
there is no other exception, and `drained_of_disk` that a cache on disk makes none.
-/

namespace Courier.Transport

open Collaborators

variable {s s' : Scene}

/-- No closed latch holds the worker up. -/
def Scene.Unheld (s : Scene) : Prop :=
  ∀ t reply, s.transport.queue.worker = .running t reply → reply.isFree s.world.latches = true

namespace Record

/-- Whether nothing is left to be done for a submission: it was dropped or rejected, its run ended, or
the worker disposed of it. -/
def isOver (r : Record) : Bool :=
  match r.fate with
  | .dropped _ | .passed _ (.rejected ..) | .passed _ (.cancelled _)
  | .passed _ (.started (.ended _)) => true
  | .passed _ .waiting | .passed _ .dropping | .passed _ (.started (.held _)) => false

/-- Whether the worker broke off when it disposed of a submission. -/
def endsWorker (r : Record) : Bool :=
  match r.fate with
  | .passed _ (.cancelled (some _)) => true
  | _ => false

end Record

theorem Ledger.has_of_fate {ledger : Ledger} {n : SubmissionId} {r : Record} {left : Envelope}
    {stage : Stage} (hr : ledger[n]? = some r) (hf : r.fate = .passed left stage) :
    ledger.Has (r.task n left) stage :=
  ⟨n, r, hr, hf, rfl⟩

namespace Scene.Balanced

/-- A worker that can go nowhere in a closed transport is at its end, or broken. -/
theorem stopped_or_broken (hb : s.Balanced) (hc : s.transport.closed = true) (hs : s.Settled)
    (hu : s.Unheld) :
    s.transport.queue.worker = .stopped ∨ ∃ fault, s.transport.queue.worker = .broken fault := by
  rcases Queue.step_eq_none_iff.1 hs with ⟨-, -, ha⟩ | ⟨t, reply, hw, hf⟩ | hw | hw
  · have h := hb.closed
    rw [hc, ha] at h
    cases h
  · have h : reply.isFree s.world.latches = false := hf
    rw [hu t reply hw] at h
    cases h
  · exact .inl hw
  · exact .inr hw

/-- A worker at its end has left nothing over. -/
theorem isOver_of_stopped (hb : s.Balanced) (hw : s.transport.queue.worker = .stopped)
    {n : SubmissionId} {r : Record} (hr : s.ledger[n]? = some r) : r.isOver = true := by
  have nobody : s.transport.queue.unstarted = [] := by
    rw [Queue.unstarted, hw, (hb.placed.sound.stopped hw).1]
    rfl
  have free (t : Task) (stage : Stage) (hat : stage.isAtHand = true) : ¬ s.ledger.Has t stage := by
    intro h
    have hh := (hb.placed.hand t stage hat).2 h
    rw [hw] at hh
    cases hh
  unfold Record.isOver
  split
  iterate 4 rfl
  next left hf =>
    have h := (hb.placed.waiting _).2 (Ledger.has_of_fate hr hf)
    rw [nobody] at h
    cases h
  next left hf => exact absurd (Ledger.has_of_fate hr hf) (free _ _ rfl)
  next left reply hf => exact absurd (Ledger.has_of_fate hr hf) (free _ _ rfl)

/-- The worker is broken exactly when disposing of a cancelled task broke off. -/
theorem exists_broken_iff (hb : s.Balanced) :
    (∃ fault, s.transport.queue.worker = .broken fault) ↔
      ∃ (n : SubmissionId) (r : Record), s.ledger[n]? = some r ∧ r.endsWorker = true := by
  constructor
  · rintro ⟨fault, hw⟩
    obtain ⟨t, n, r, hr, hf, -⟩ := (hb.placed.broken fault).1 hw
    refine ⟨n, r, hr, ?_⟩
    unfold Record.endsWorker
    rw [hf]
  · rintro ⟨n, r, hr, he⟩
    unfold Record.endsWorker at he
    split at he
    next left fault hf =>
      exact ⟨fault, (hb.placed.broken fault).2 ⟨_, Ledger.has_of_fate hr hf⟩⟩
    · cases he

end Scene.Balanced

/-! ## The exception -/

/-- Only the cache ends the worker, when it is to store an envelope that it does not have. -/
theorem Advance.cause_of_endsWorker (ha : Advance s s') (hb : s.Balanced) {r : Record}
    (hr : r ∈ s'.ledger) (he : r.endsWorker = true) :
    r ∈ s.ledger ∨ r.can.cached = false ∧ ∃ e fault, s.world.cache.storeFault? e = some fault := by
  cases ha with
  | quiet ledger =>
    rw [ledger] at hr
    exact .inl hr
  | entered r' ledger comes enters =>
    rw [ledger] at hr
    rcases List.mem_append.1 hr with hr | hr
    · exact .inl hr
    · -- nothing that enters the transport was cancelled before
      rw [List.mem_singleton.1 hr] at he
      unfold Record.endsWorker at he
      generalize s'.transport = transport at enters
      cases enters with
      | accepted left fate room => simp [fate] at he
      | dropped fault fate => simp [fate] at he
      | rejected left reason fault fate => simp [fate] at he
  | went t before after u has ledger grows effects cause =>
    rw [ledger] at hr
    obtain ⟨n, hn⟩ := List.mem_iff_getElem?.1 hr
    rcases has.getElem?_enter after hn with ⟨-, r₀, hr₀, rfl, -, ht⟩ | ⟨-, hn⟩
    · refine .inr ?_
      have hcan := hb.booked.abilities n r₀ hr₀
      have hhint : r₀.hint = t.hint := by rw [ht]; rfl
      unfold Record.endsWorker at he
      split at he
      next left fault hf =>
        injection hf with _ hst
        obtain ⟨hc, hfault⟩ := cause fault hst
        rw [← hhint, ← hcan] at hc
        exact ⟨hc, _, fault, hfault⟩
      · cases he
    · exact .inl (List.mem_of_getElem? hn)

theorem uncached_of_endsWorker (hb : s.Balanced) (hl : s.ledger = []) (moves : List Move) :
    ∀ r ∈ (Scene.run moves s).ledger, r.endsWorker = true → r.can.cached = false := by
  refine (Scene.run_induction (P := fun s => s.Balanced ∧
    ∀ r ∈ s.ledger, r.endsWorker = true → r.can.cached = false) ?_ ⟨hb, ?_⟩ moves).2
  · rintro s m ⟨hb, hold⟩
    refine ⟨hb.move m, fun r hr he => ?_⟩
    rcases (hb.passes m).advance.cause_of_endsWorker hb hr he with hr | ⟨hc, -⟩
    · exact hold r hr he
    · exact hc
  · rw [hl]
    exact fun r hr => by cases hr

/-- A cache on disk never ends the worker. -/
theorem not_endsWorker_of_disk {c : DiskCache} (hb : s.Balanced) (hl : s.ledger = [])
    (hd : s.world.cache = .disk c) (moves : List Move) :
    ∀ r ∈ (Scene.run moves s).ledger, r.endsWorker = false := by
  refine (Scene.run_induction (P := fun s => s.Balanced ∧ s.world.cache = .disk c ∧
    ∀ r ∈ s.ledger, r.endsWorker = false) ?_ ⟨hb, hd, ?_⟩ moves).2.2
  · rintro s m ⟨hb, hd, hold⟩
    have ha := (hb.passes m).advance
    refine ⟨hb.move m, ha.disk hd, fun r hr => ?_⟩
    rw [← Bool.not_eq_true]
    intro he
    rcases ha.cause_of_endsWorker hb hr he with hr | ⟨-, e, fault, hfault⟩
    · rw [hold r hr] at he
      cases he
    · rw [hd] at hfault
      cases hfault
  · rw [hl]
    exact fun r hr => by cases hr

/-! ## Whole runs -/

/-- The queue is terminated, nothing is pending, and every submission is over. -/
structure Scene.Drained (s : Scene) : Prop where
  terminated : s.transport.queue.state = .terminated
  pending : s.transport.pending = 0
  allOver : ∀ r ∈ s.ledger, r.isOver = true

namespace Scene.Balanced

theorem drained_of_stopped (hb : s.Balanced) (hw : s.transport.queue.worker = .stopped) :
    s.Drained where
  terminated := hb.placed.sound.terminated.2 hw
  pending := by
    show s.transport.queue.occupied = 0
    rw [hb.placed.sound.occupied, Queue.unstarted, hw, (hb.placed.sound.stopped hw).1]
    rfl
  allOver r hr := by
    obtain ⟨n, hn⟩ := List.mem_iff_getElem?.1 hr
    exact hb.isOver_of_stopped hw hn

theorem drained_iff (hb : s.Balanced) (hc : s.transport.closed = true) (hs : s.Settled)
    (hu : s.Unheld) : s.Drained ↔ ∀ r ∈ s.ledger, r.endsWorker = false := by
  constructor
  · intro hd r hr
    have hw := hb.placed.sound.terminated.1 hd.terminated
    rw [← Bool.not_eq_true]
    intro he
    obtain ⟨n, hn⟩ := List.mem_iff_getElem?.1 hr
    obtain ⟨fault, hw'⟩ := hb.exists_broken_iff.2 ⟨n, r, hn, he⟩
    rw [hw] at hw'
    cases hw'
  · intro whole
    rcases hb.stopped_or_broken hc hs hu with hw | hw
    · exact hb.drained_of_stopped hw
    · obtain ⟨n, r, hr, he⟩ := hb.exists_broken_iff.1 hw
      rw [whole r (List.mem_of_getElem? hr)] at he
      cases he

theorem shuttingDown_of_endsWorker (hb : s.Balanced) (hc : s.transport.closed = true) {r : Record}
    (hr : r ∈ s.ledger) (he : r.endsWorker = true) : s.transport.queue.state = .shuttingDown := by
  obtain ⟨n, hn⟩ := List.mem_iff_getElem?.1 hr
  obtain ⟨fault, hw⟩ := hb.exists_broken_iff.2 ⟨n, r, hn, he⟩
  have ha := hb.closed
  rw [hc] at ha
  exact hb.placed.sound.shuttingDown (by simpa using ha.symm) (by rw [hw]; simp)

end Scene.Balanced

/-- Over a cache on disk every closed transport is drained in the end. -/
theorem drained_of_disk {settings : TransportSettings} {limited : Bool} {w w' : Collaborators}
    {t : Transport} {c : DiskCache} (hu : Unused w) (hs : start settings limited w = (.ok t, w'))
    (hd : w'.cache = .disk c) (moves : List Move) :
    let s := Scene.run moves ⟨t, w', []⟩
    s.transport.closed = true → s.Settled → s.Unheld → s.Drained := by
  intro s hc hst hfree
  have hb₀ := balanced_start hu hs
  exact ((hb₀.run moves).drained_iff hc hst hfree).2 (not_endsWorker_of_disk hb₀ rfl hd moves)

/-- **Draining.** Take any run in which a transport was closed, and a moment at which no closed latch
holds its worker up and the worker has nothing left to do. The transport is drained exactly when no
disposing of a cancelled task broke off. Otherwise the queue stays on its way to the end, and the
envelope of that task was not in the cache. Every submission has a record, and what was done for it is
what its record says. -/
theorem drained_iff_of_run {settings : TransportSettings} {limited : Bool} {w w' : Collaborators}
    {t : Transport} (hu : Unused w) (hs : start settings limited w = (.ok t, w'))
    (moves : List Move) :
    let s := Scene.run moves ⟨t, w', []⟩
    s.transport.closed = true → s.Settled → s.Unheld →
    (s.Drained ↔ ∀ r ∈ s.ledger, r.endsWorker = false) ∧
    (∀ r ∈ s.ledger, r.endsWorker = true →
      s.transport.queue.state = .shuttingDown ∧ r.can.cached = false) ∧
    Scene.Recorded moves ⟨t, w', []⟩ ∧
    ∀ (n : SubmissionId) (r : Record), s.ledger[n]? = some r →
      s.world.journal.effects n = r.effects n := by
  intro s hc hst hfree
  have hb₀ := balanced_start hu hs
  have hb : s.Balanced := hb₀.run moves
  refine ⟨hb.drained_iff hc hst hfree, fun r hr he => ?_, hb₀.recorded rfl moves, hb.booked.effects⟩
  exact ⟨hb.shuttingDown_of_endsWorker hc hr he, uncached_of_endsWorker hb₀ rfl moves r hr he⟩

/-- A world in which the cache breaks off on one envelope. -/
def brokenWorld : Collaborators :=
  sampleWorld (.recording (fun e => if e.key = "bad" then some .other else none) fun _ => none)

/-- Two envelopes wait when the time of a close is up, and the cache breaks off on the first one. -/
def strandingMoves : List Move :=
  [.send (sampleEnvelope "bad") none, .send (sampleEnvelope "fine") none, .beginClose, .endClose,
    .work, .work, .work]

def strandedScene : Scene :=
  .run strandingMoves ⟨⟨sampleSettings, false, Queue.create 2, false⟩,
    brokenWorld.log here (.transportStarted 2 0), []⟩

/-- The second envelope is never disposed of, and the queue is never terminated. -/
theorem stranded_of_broken_cache :
    strandedScene.transport.closed = true ∧ strandedScene.Settled ∧ strandedScene.Unheld ∧
      strandedScene.ledger[1]?.map Record.fate =
        some (.passed (sampleEnvelope "fine") .waiting) ∧
      strandedScene.transport.queue.state = .shuttingDown := by
  have hc : strandedScene.transport.closed = true := rfl
  have hst : strandedScene.Settled := rfl
  have hfree : strandedScene.Unheld := fun t reply h => by cases h
  have hr : strandedScene.ledger[0]? = some ⟨sampleEnvelope "bad", none, {},
    .passed (sampleEnvelope "bad") (.cancelled (some .other))⟩ := rfl
  have h := drained_iff_of_run (unused_sampleWorld _) (start_of_ne_zero (by decide) false brokenWorld)
    strandingMoves hc hst hfree
  exact ⟨hc, hst, hfree, rfl, (h.2.1 _ (List.mem_of_getElem? hr) rfl).1⟩

end Courier.Transport
