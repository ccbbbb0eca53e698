import Courier.Proofs.Transport.Draining

/-!
# What idle means

A flush returns as soon as no slot is taken. A task that runs keeps its slot until its run is over, but
a cancelled task gives up its slot before it is disposed of. `done_iff_of_run` says what a caller may
conclude: at an idle moment everything is done for every submission, except for one of which the worker
is about to dispose, or of which it could not dispose. As long as nothing was cancelled there is no
exception.
-/

namespace Courier.Transport

open Collaborators

variable {s : Scene} {n : SubmissionId} {r : Record}

/-- Whether everything is done for a submission: it was turned away, its run is over, or the worker
disposed of it and did not break off. -/
def Record.isDone (r : Record) : Bool :=
  match r.fate with
  | .dropped _ | .passed _ (.rejected ..) | .passed _ (.cancelled none)
  | .passed _ (.started (.ended _)) => true
  | .passed _ .waiting | .passed _ .dropping | .passed _ (.cancelled (some _))
  | .passed _ (.started (.held _)) => false

theorem fst_endFlush (t : Transport) (timeoutMs : Nat) (w : Collaborators) :
    (t.endFlush timeoutMs w).1 = true ↔ t.pending = 0 := by
  have hi : t.queue.isIdle = true ↔ t.pending = 0 := beq_iff_eq
  unfold endFlush
  rw [← hi]
  split
  next h => exact iff_of_true rfl h
  next h => exact iff_of_false Bool.false_ne_true h

theorem of_occupied_eq_zero {q : Queue Task Reply} (hs : q.Sound) (ho : q.occupied = 0) :
    q.unstarted = [] ∧ Queue.busy q.worker = 0 := by
  have h := hs.occupied
  rw [ho] at h
  exact ⟨List.length_eq_zero_iff.1 (by omega), by omega⟩

theorem worker_of_atHand_dropping {worker : Worker Task Reply} {t : Task}
    (h : atHand worker = some (t, .dropping)) : worker = .dropping t := by
  cases worker <;> cases h
  rfl

theorem busy_of_atHand_held {worker : Worker Task Reply} {t : Task} {reply : Reply}
    (h : atHand worker = some (t, .started (.held reply))) : Queue.busy worker = 1 := by
  cases worker <;> cases h
  rfl

/-- What is left to do for a submission although no slot is taken: the worker is about to dispose of it
and nothing was done yet, or storing its envelope broke off. -/
inductive Undone (s : Scene) (n : SubmissionId) (r : Record) (left : Envelope) : Prop where
  | dropping (fate : r.fate = .passed left .dropping)
      (worker : s.transport.queue.worker = .dropping (r.task n left))
      (effects : s.world.journal.effects n = [])
  | broken (fault : Fault) (fate : r.fate = .passed left (.cancelled (some fault)))
      (worker : s.transport.queue.worker = .broken fault)
      (effects : s.world.journal.effects n = [.store left r.hint.isSome])

namespace Scene.Balanced

/-- At an idle moment nothing is left to do, except to dispose of a cancelled task. -/
theorem undone_of_idle (hb : s.Balanced) (hi : s.transport.pending = 0)
    (hc : r.endsWorker = true → r.can.cached = false) (hr : s.ledger[n]? = some r)
    (hd : r.isDone = false) : ∃ left, Undone s n r left := by
  obtain ⟨nobody, free⟩ := of_occupied_eq_zero hb.placed.sound hi
  have heffects := hb.booked.effects n r hr
  unfold Record.isDone at hd
  split at hd
  iterate 4 cases hd
  next left hf =>
    have hw := (hb.placed.waiting _).2 (Ledger.has_of_fate hr hf)
    rw [nobody] at hw
    cases hw
  next left hf =>
    have hw := (hb.placed.hand _ _ rfl).2 (Ledger.has_of_fate hr hf)
    refine ⟨left, .dropping hf (worker_of_atHand_dropping hw) ?_⟩
    rw [heffects]
    unfold Record.effects
    rw [hf]
    rfl
  next left fault hf =>
    refine ⟨left, .broken fault hf ((hb.placed.broken fault).2 ⟨_, Ledger.has_of_fate hr hf⟩) ?_⟩
    have hcached : r.can.cached = false := hc (by unfold Record.endsWorker; rw [hf])
    rw [heffects]
    unfold Record.effects
    rw [hf]
    show rejecting _ r.can (some fault) = _
    rw [rejecting, hcached]
    rfl
  next left reply hf =>
    -- a run that waits for its reply takes a slot
    have hw := (hb.placed.hand _ _ rfl).2 (Ledger.has_of_fate hr hf)
    rw [busy_of_atHand_held hw] at free
    cases free

/-- At an idle moment everything is done exactly if the worker deals with no cancelled task. -/
theorem isDone_iff_of_idle (hb : s.Balanced) (hi : s.transport.pending = 0)
    (hc : ∀ r ∈ s.ledger, r.endsWorker = true → r.can.cached = false) :
    (∀ r ∈ s.ledger, r.isDone = true) ↔ Queue.isDropping s.transport.queue.worker = false := by
  constructor
  · intro done
    have none_at (t : Task) (stage : Stage)
        (hstage : stage = .dropping ∨ ∃ fault, stage = .cancelled (some fault)) :
        ¬ s.ledger.Has t stage := by
      rintro ⟨n, r, hr, hf, -⟩
      have hd := done r (List.mem_of_getElem? hr)
      unfold Record.isDone at hd
      rw [hf] at hd
      rcases hstage with rfl | ⟨fault, rfl⟩ <;> cases hd
    cases hw : s.transport.queue.worker with
    | dropping t =>
      exact absurd ((hb.placed.hand t _ rfl).1 (by rw [hw]; rfl)) (none_at t _ (.inl rfl))
    | broken fault =>
      obtain ⟨t, ht⟩ := (hb.placed.broken fault).1 hw
      exact absurd ht (none_at t _ (.inr ⟨fault, rfl⟩))
    | _ => rfl
  · intro hw r hr
    by_contra hd
    obtain ⟨n, hn⟩ := List.mem_iff_getElem?.1 hr
    obtain ⟨left, hu⟩ := hb.undone_of_idle hi (hc r hr) hn (by simpa using hd)
    cases hu with
    | dropping fate worker effects =>
      rw [worker] at hw
      cases hw
    | broken fault fate worker effects =>
      rw [worker] at hw
      cases hw

/-- When the last task that waits is cancelled, the queue is idle before anything is done for it. -/
theorem idle_of_drop (hb : s.Balanced) {t : Task}
    (hw : s.transport.queue.worker = .received t) (hc : s.transport.queue.cancelled = true)
    (hq : s.transport.queue.waiting = []) :
    (s.move .work).transport.pending = 0 ∧ ∃ r ∈ (s.move .work).ledger, r.isDone = false := by
  have hstep : s.transport.queue.step handler s.world =
      some ({ s.transport.queue.release with worker := .dropping t }, s.world) := by
    unfold Queue.step
    rw [hw]
    simp only [if_pos hc]
  have hwork : s.move .work = _ := Scene.work_of_step hstep
  have hb' := hb.move .work
  rw [hwork] at hb' ⊢
  constructor
  · have ho := hb.placed.sound.occupied
    rw [Queue.unstarted, hw, hq] at ho
    show s.transport.queue.occupied - 1 = 0
    rw [ho]
    rfl
  · obtain ⟨n, r, hr, hf, -⟩ := (hb'.placed.hand t .dropping rfl).1 rfl
    refine ⟨r, List.mem_of_getElem? hr, ?_⟩
    unfold Record.isDone
    rw [hf]

end Scene.Balanced

/-! ## Whole runs -/

/-- **Idle moments.** Take any run of a transport, observed after any single action of its worker. A
flush succeeds exactly when no slot is taken. Then everything is done for every submission if and only
if the worker deals with no cancelled task, so always if nothing was cancelled. What is left to do
otherwise is to dispose of a cancelled task: its slot is free, but nothing was done for it, or storing
its envelope broke off. This happens whenever the last task that waits is cancelled. -/
theorem done_iff_of_run {settings : TransportSettings} {limited : Bool} {w w' : Collaborators}
    {t : Transport} (hu : Unused w) (hs : start settings limited w = (.ok t, w'))
    (moves : List Move) :
    let s := Scene.run moves ⟨t, w', []⟩
    Scene.Recorded moves ⟨t, w', []⟩ ∧
    (∀ timeoutMs, (s.transport.endFlush timeoutMs s.world).1 = true ↔ s.transport.pending = 0) ∧
    (s.transport.pending = 0 →
      ((∀ r ∈ s.ledger, r.isDone = true) ↔ Queue.isDropping s.transport.queue.worker = false) ∧
      (s.transport.queue.cancelled = false → ∀ r ∈ s.ledger, r.isDone = true) ∧
      ∀ (n : SubmissionId) (r : Record), s.ledger[n]? = some r →
        s.world.journal.effects n = r.effects n ∧
        (r.isDone = false → ∃ left, Undone s n r left)) ∧
    ∀ task, s.transport.queue.worker = .received task → s.transport.queue.cancelled = true →
      s.transport.queue.waiting = [] →
      (s.move .work).transport.pending = 0 ∧ ∃ r ∈ (s.move .work).ledger, r.isDone = false := by
  intro s
  have hb₀ := balanced_start hu hs
  have hb : s.Balanced := hb₀.run moves
  have hc : ∀ r ∈ s.ledger, r.endsWorker = true → r.can.cached = false :=
    uncached_of_endsWorker hb₀ rfl moves
  refine ⟨hb₀.recorded rfl moves, fun timeoutMs => fst_endFlush _ timeoutMs _, fun hi => ?_,
    fun task hw hcancelled hq => hb.idle_of_drop hw hcancelled hq⟩
  have hiff := hb.isDone_iff_of_idle hi hc
  refine ⟨hiff, fun hkept => hiff.2 ?_, fun n r hr => ⟨hb.booked.effects n r hr, fun hd => ?_⟩⟩
  · by_contra hd
    have hcancelled := hb.placed.sound.dropping (by simpa using hd)
    rw [hkept] at hcancelled
    cases hcancelled
  · exact hb.undone_of_idle hi (hc r (List.mem_of_getElem? hr)) hr hd

/-- The scene in which the second of two envelopes was cancelled and not yet disposed of. -/
def undisposedScene : Scene :=
  .run (hintedMoves.take 9) ⟨⟨sampleSettings, false, Queue.create 2, false⟩,
    hintedWorld.log here (.transportStarted 2 0), []⟩

/-- A flush succeeds while the second envelope is neither stored nor its hint told. -/
theorem undone_of_cancelled :
    (undisposedScene.transport.endFlush 0 undisposedScene.world).1 = true ∧
      undisposedScene.ledger[1]?.map Record.fate =
        some (.passed (sampleEnvelope "second") .dropping) ∧
      undisposedScene.world.journal.effects 1 = [] := by
  have hs : start sampleSettings false hintedWorld = _ :=
    start_of_ne_zero (by decide) false hintedWorld
  have hr : undisposedScene.ledger[1]? = some ⟨sampleEnvelope "second", some 1,
    Hint.flush.capabilities, .passed (sampleEnvelope "second") .dropping⟩ := rfl
  have hi : undisposedScene.transport.pending = 0 := rfl
  obtain ⟨-, flush, idle, -⟩ :=
    done_iff_of_run ⟨rfl, fun _ hl => by cases hl⟩ hs (hintedMoves.take 9)
  obtain ⟨heffects, -⟩ := (idle hi).2.2 1 _ hr
  exact ⟨(flush 0).2 hi, by rw [hr]; rfl, heffects⟩

end Courier.Transport
