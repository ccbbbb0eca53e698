import Courier.Proofs.Queue.Slots
import Courier.Queue.Probe

/-!
# From running to terminated

`lifecycle_of_run`: take any run of a queue in which the policy returns whenever it is called. A worker
at rest either waits inside one run that cannot go on, or has left nothing over. The state of the queue
follows from this and from the calls that were made, and never goes back. Without `shutDownNow` only a
blocked run keeps later jobs from starting; after it no job starts any more, and those that had not
started are cancelled.
-/

namespace Courier

/-- How far a state is on the way from running to terminated. -/
def QueueState.rank : QueueState → Nat
  | .running => 0
  | .shuttingDown => 1
  | .terminated => 2

namespace Queue

variable {J R W : Type} {h : Handler J R W} {q q' : Queue J R} {w w' : W} {s : Watch J R W}

/-- Whether a move drops the jobs that wait. -/
def Move.cancels : Move J W → Bool
  | .call .shutDownNow => true
  | .call .shutDown | .call (.submit _) | .call .askIdle | .call .askTerminated | .work
  | .change _ => false

/-! ## States -/

theorem Acts.state_eq (ha : Acts h q w q' w') : q'.state = q.state ∨ q'.state = .terminated := by
  cases ha with
  | stop ready waiting closed => exact .inr rfl
  | start job received kept => exact .inl (by cases (h.start job w).1 <;> rfl)
  | resume job rest running free => exact .inl (by cases (h.resume job rest w).1 <;> rfl)
  | _ => exact .inl rfl

theorem QueueState.rank_le_terminated (state : QueueState) :
    state.rank ≤ QueueState.terminated.rank := by
  cases state <;> decide

theorem rank_le_shutDown (h : Handler J R W) (q : Queue J R) (w : W) :
    q.state.rank ≤ (q.shutDown h w).1.state.rank := by
  unfold shutDown
  split
  · show q.state.rank ≤ (if q.state = .running then QueueState.shuttingDown else q.state).rank
    cases q.state <;> decide
  · exact Nat.le_refl _

namespace Watch

/-- The state of a queue never goes back. -/
theorem rank_le_move (s : Watch J R W) (m : Move J W) :
    s.queue.state.rank ≤ (s.move h m).queue.state.rank := by
  have ht := turns h s m
  generalize (s.move h m).queue = q' at ht
  cases ht with
  | stay m leaves => exact Nat.le_refl _
  | accept job room => exact Nat.le_refl _
  | shutDown => exact rank_le_shutDown _ _ _
  | shutDownNow => exact rank_le_shutDown (watch h) { s.queue with cancelled := true } s.world
  | act q' w' acts =>
    rcases acts.state_eq with he | he
    · exact Nat.le_of_eq (congrArg _ he.symm)
    · rw [he]
      exact QueueState.rank_le_terminated _

theorem rank_le_run (s : Watch J R W) (moves : List (Move J W)) :
    s.queue.state.rank ≤ (s.run h moves).queue.state.rank :=
  run_induction (P := fun s' => s.queue.state.rank ≤ s'.queue.state.rank) (Nat.le_refl _)
    (fun s' m hle => Nat.le_trans hle (rank_le_move s' m)) moves

theorem cancelled_move (s : Watch J R W) (m : Move J W) :
    (s.move h m).queue.cancelled = (s.queue.cancelled || m.cancels) := by
  have stays (q : Queue (Nat × J) R) (hq : q.cancelled = s.queue.cancelled)
      (hm : m.cancels = false) : q.cancelled = (s.queue.cancelled || m.cancels) := by
    rw [hq, hm, Bool.or_false]
  have ht := turns h s m
  generalize (s.move h m).queue = q' at ht
  cases ht with
  | stay m leaves =>
    refine stays _ rfl ?_
    cases m with
    | call c => cases c <;> first | rfl | cases leaves
    | work => rfl
    | change f => rfl
  | accept job room => exact stays _ rfl rfl
  | shutDown => exact stays _ (cancelled_shutDown _ _ _) rfl
  | shutDownNow => exact (cancelled_shutDown _ _ _).trans (Bool.or_true _).symm
  | act q' w' acts => exact stays _ acts.cancelled_eq rfl

theorem cancelled_run (h : Handler J R W) (s : Watch J R W) (moves : List (Move J W)) :
    (s.run h moves).queue.cancelled = (s.queue.cancelled || moves.any Move.cancels) := by
  induction moves generalizing s with
  | nil => exact (Bool.or_false _).symm
  | cons m more ih =>
    show ((s.move h m).run h more).queue.cancelled = _
    rw [ih, cancelled_move, List.any_cons, Bool.or_assoc]

theorem run_append (h : Handler J R W) (s : Watch J R W) (first more : List (Move J W)) :
    s.run h (first ++ more) = (s.run h first).run h more := List.foldl_append

/-! ## Policies that return -/

/-- At every moment of the moves from `s`, the policy returns if it is called. -/
def Returning (h : Handler J R W) : List (Move J W) → Watch J R W → Prop
  | [], s => ∀ side job reason, (h.reject side job reason s.world.world).1 = none
  | m :: more, s =>
    (∀ side job reason, (h.reject side job reason s.world.world).1 = none) ∧
      Returning h more (s.move h m)

/-- Only a policy that breaks off breaks the worker. -/
theorem unbroken_move (hr : ∀ side job reason, (h.reject side job reason s.world.world).1 = none)
    (hw : ∀ fault, s.queue.worker ≠ .broken fault) (m : Move J W) (fault : Fault) :
    (s.move h m).queue.worker ≠ .broken fault := by
  have ht := turns h s m
  generalize (s.move h m).queue = q' at ht
  cases ht with
  | stay m leaves => exact hw fault
  | accept job room => exact hw fault
  | shutDown => rw [worker_shutDown]; exact hw fault
  | shutDownNow => rw [worker_shutDownNow]; exact hw fault
  | act q' w' acts =>
    cases acts with
    | start job received kept =>
      cases ((watch h).start job s.world).1 <;> exact fun he => by cases he
    | resume job rest running free =>
      cases ((watch h).resume job rest s.world).1 <;> exact fun he => by cases he
    | breakOff job fault' dropping broken =>
      have hnone : ((watch h).reject .worker job .cancelled s.world).1 = none :=
        hr .worker job.2 .cancelled
      rw [hnone] at broken
      cases broken
    | _ => exact fun he => by cases he

theorem unbroken_run {moves : List (Move J W)} (hr : Returning h moves s)
    (hw : ∀ fault, s.queue.worker ≠ .broken fault) (fault : Fault) :
    (s.run h moves).queue.worker ≠ .broken fault := by
  induction moves generalizing s with
  | nil => exact hw fault
  | cons m more ih => exact ih hr.2 (unbroken_move hr.1 hw m)

/-! ## Workers at rest -/

/-- The worker waits, or is at its end. -/
def Settled (h : Handler J R W) (s : Watch J R W) : Prop := s.queue.step (watch h) s.world = none

/-- The run of the job with this number waits, and cannot go on. -/
def Blocked (h : Handler J R W) (s : Watch J R W) (id : Nat) : Prop :=
  ∃ job rest, s.queue.worker = .running (id, job) rest ∧
    h.canResume job rest s.world.world = false

/-- A worker at rest is blocked in a run, or has no job at hand and none before it. -/
theorem Settled.blocked_or_idle (hst : s.Settled h) (hs : s.queue.Sound)
    (hw : ∀ fault, s.queue.worker ≠ .broken fault) :
    (∃ id, s.Blocked h id) ∨
      (inRun s.queue.worker = none ∧ s.queue.pending = []) ∧
        (s.queue.accepting = true ∨ s.queue.worker = .stopped) := by
  rcases step_eq_none_iff.1 hst with ⟨hw', hq, ha⟩ | ⟨⟨id, job⟩, rest, hw', hf⟩ | hw' | ⟨fault, hw'⟩
  · exact .inr ⟨⟨by rw [hw']; rfl, by simp [pending, hw', inHand, hq]⟩, .inl ha⟩
  · exact .inl ⟨id, job, rest, hw', hf⟩
  · exact .inr ⟨⟨by rw [hw']; rfl, by simp [pending, hw', inHand, (hs.stopped hw').1]⟩, .inr hw'⟩
  · exact absurd hw' (hw fault)

theorem Blocked.inRun {id : Nat} (hb : s.Blocked h id) :
    ∃ job, inRun s.queue.worker = some (id, job) := by
  obtain ⟨job, rest, hw, -⟩ := hb
  exact ⟨job, by rw [hw]; rfl⟩

/-- From everywhere the worker comes to rest. -/
theorem exists_settled (hp : Patient h) (s : Watch J R W) :
    ∃ n, (s.run h (List.replicate n .work)).Settled h := by
  have hp' : Patient (watch h) :=
    ⟨fun job w rest hr => hp.start job.2 w.world rest hr,
      fun job rest w rest' hr => hp.resume job.2 rest w.world rest' hr⟩
  suffices ∀ n (s : Watch J R W), s.queue.actionsLeft ≤ n →
      ∃ n, (s.run h (List.replicate n .work)).Settled h from this _ s (Nat.le_refl _)
  intro n
  -- by induction on the actions that are left at most
  induction n with
  | zero =>
    intro s hn
    refine ⟨0, ?_⟩
    exact settled_run hp' hn
  | succ n ih =>
    intro s hn
    cases hst : s.queue.step (watch h) s.world with
    | none => exact ⟨0, hst⟩
    | some r =>
      obtain ⟨q', w'⟩ := r
      have hm : s.move h .work = { s with queue := q', world := w' } := move_work_of_step hst
      rcases (acts_of_step hst).actionsLeft_lt hp' with hlt | hnone
      · obtain ⟨k, hk⟩ := ih (s.move h .work) (by rw [hm]; exact Nat.le_of_lt_succ (Nat.lt_of_lt_of_le hlt hn))
        exact ⟨k + 1, hk⟩
      · refine ⟨1, ?_⟩
        show (s.move h .work).Settled h
        rw [hm]
        exact hnone

end Watch

/-! ## What is left at rest -/

namespace Watch

/-- A worker that is blocked is blocked in the one job that was started and is unfinished. -/
theorem Blocked.started_iff {id : Nat} (hb : s.Blocked h id) (ho : Ordered s) (i : Nat) :
    i ∈ s.history.started ∧ i ∈ s.history.unfinished ↔ i = id := by
  obtain ⟨job, hj⟩ := hb.inRun
  have hone := ho.filter_started
  rw [hj] at hone
  have hmem : i ∈ s.history.started.filter (fun id => ! s.history.any (Happening.finishes id)) ↔
      i = id := by
    rw [hone]
    exact List.mem_singleton
  rw [← hmem, List.mem_filter]
  refine and_congr_right fun hs => ?_
  have ha : i ∈ s.history.accepted := by
    rw [ho.fifo]
    exact List.mem_append_left _ (List.mem_append_left _ hs)
  exact ⟨fun hu => (List.mem_filter.1 hu).2, fun hu => List.mem_filter.2 ⟨ha, hu⟩⟩

theorem lt_of_inRun_of_pending (ho : Ordered s) {id i : Nat} {job : J}
    (hj : Courier.Queue.inRun s.queue.worker = some (id, job))
    (hi : i ∈ s.queue.pending.map Prod.fst) : id < i := by
  have hs : id ∈ s.history.started := (ho.started_of_inRun hj).1
  have ha := ho.increasing
  rw [ho.fifo, List.pairwise_append] at ha
  exact ha.2.2 id (List.mem_append_left _ hs) i hi

theorem Blocked.worker_ne_stopped {id : Nat} (hb : s.Blocked h id) : s.queue.worker ≠ .stopped := by
  obtain ⟨job, rest, hw, -⟩ := hb
  rw [hw]
  exact fun he => by cases he

/-- At rest a queue is on its way to the end exactly if it is shut down and its worker is blocked. -/
theorem Settled.shuttingDown_iff (hst : s.Settled h) (hs : s.queue.Sound)
    (hw : ∀ fault, s.queue.worker ≠ .broken fault) :
    s.queue.state = .shuttingDown ↔ s.queue.accepting = false ∧ ∃ id, s.Blocked h id := by
  constructor
  · intro hstate
    have ha : s.queue.accepting = false := by
      rw [← Bool.not_eq_true, ← hs.running, hstate]
      exact fun he => by cases he
    refine ⟨ha, (hst.blocked_or_idle hs hw).resolve_right fun hidle => ?_⟩
    rcases hidle.2 with ha' | hstop
    · rw [ha] at ha'
      cases ha'
    · rw [hs.terminated.2 hstop] at hstate
      cases hstate
  · rintro ⟨ha, id, hb⟩
    exact hs.shuttingDown ha hb.worker_ne_stopped

/-- At rest a queue is at its end exactly if it is shut down and its worker is not blocked. -/
theorem Settled.terminated_iff (hst : s.Settled h) (hs : s.queue.Sound)
    (hw : ∀ fault, s.queue.worker ≠ .broken fault) :
    s.queue.state = .terminated ↔ s.queue.accepting = false ∧ ¬ ∃ id, s.Blocked h id := by
  rw [hs.terminated]
  constructor
  · intro hstop
    exact ⟨(hs.stopped hstop).2, fun ⟨id, hb⟩ => hb.worker_ne_stopped hstop⟩
  · rintro ⟨ha, hnot⟩
    rcases ((hst.blocked_or_idle hs hw).resolve_left hnot).2 with ha' | hstop
    · rw [ha] at ha'
      cases ha'
    · exact hstop

/-- While nothing was cancelled, a job that has not started waits behind one that is blocked. -/
theorem Settled.started_or_blocked (hst : s.Settled h) (ho : Ordered s) (hs : s.queue.Sound)
    (hw : ∀ fault, s.queue.worker ≠ .broken fault) (hc : s.queue.cancelled = false) {i : Nat}
    (hi : i ∈ s.history.accepted) : i ∈ s.history.started ∨ ∃ id < i, s.Blocked h id := by
  rw [ho.fifo, ho.not_cancelled hc, List.append_nil, List.mem_append] at hi
  refine hi.imp_right fun hi => ?_
  rcases hst.blocked_or_idle hs hw with ⟨id, hb⟩ | ⟨⟨-, hp⟩, -⟩
  · obtain ⟨job, hj⟩ := hb.inRun
    exact ⟨id, lt_of_inRun_of_pending ho hj hi, hb⟩
  · rw [hp] at hi
    cases hi

/-! ## After jobs were dropped -/

/-- A queue that drops its jobs and takes no more. -/
def Closing (s : Watch J R W) : Prop := s.queue.cancelled = true ∧ s.queue.accepting = false

theorem closing_shutDownNow (h : Handler J R W) (s : Watch J R W) :
    (s.move h (.call .shutDownNow)).Closing :=
  ⟨(cancelled_move s _).trans (Bool.or_true _), (accepting_move s _).trans (Bool.and_false _)⟩

theorem Closing.move (hc : s.Closing) (m : Move J W) : (s.move h m).Closing :=
  ⟨by rw [cancelled_move, hc.1, Bool.true_or], by rw [accepting_move, hc.2, Bool.false_and]⟩

theorem history_shutDown (h : Handler J R W) (q : Queue (Nat × J) R) (w : Watched W) :
    (q.shutDown (watch h) w).2.history = w.history := by
  unfold Queue.shutDown
  split <;> rfl

/-- The worker accepts nothing, and a worker that drops its jobs starts none of them. -/
theorem Closing.history_work (hc : s.Closing) :
    (s.move h .work).history.started = s.history.started ∧
      (s.move h .work).history.accepted = s.history.accepted := by
  -- whatever is noted besides starts of jobs and what their submissions answered
  have noted {t u : History} (ht : t = s.history ++ u) (hs : u.started = [])
      (ha : u.accepted = []) : t.started = s.history.started ∧ t.accepted = s.history.accepted := by
    rw [ht, History.started_append, History.accepted_append, hs, ha, List.append_nil, List.append_nil]
    exact ⟨rfl, rfl⟩
  cases hst : s.queue.step (watch h) s.world with
  | none =>
    rw [move_work_of_step_eq_none hst]
    exact ⟨rfl, rfl⟩
  | some r =>
    obtain ⟨q', w'⟩ := r
    rw [move_work_of_step hst]
    cases acts_of_step hst with
    | receive job more ready waiting => exact ⟨rfl, rfl⟩
    | stop ready waiting closed => exact ⟨rfl, rfl⟩
    | drop job received cancelled => exact ⟨rfl, rfl⟩
    | start job received kept =>
      rw [hc.1] at kept
      cases kept
    | resume job rest running free => exact noted rfl (started_endOf _ _) (accepted_endOf _ _)
    | finish job fault returned => cases fault <;> exact ⟨rfl, rfl⟩
    | dispose job dropping whole => exact noted rfl rfl rfl
    | breakOff job fault dropping broken => exact noted rfl rfl rfl

/-- A queue that drops its jobs neither accepts nor starts another one. -/
theorem Closing.history_move (hc : s.Closing) (hs : s.queue.Sound) (m : Move J W) :
    (s.move h m).history.started = s.history.started ∧
      (s.move h m).history.accepted = s.history.accepted := by
  -- shutting down notes nothing
  have silent {q : Queue (Nat × J) R} {t : History}
      (ht : t = (q.shutDown (watch h) s.world).2.history) :
      t.started = s.history.started ∧ t.accepted = s.history.accepted := by
    rw [ht, history_shutDown]
    exact ⟨rfl, rfl⟩
  cases m with
  | call c =>
    cases c with
    | submit job =>
      have hr : s.queue.refusal? = some .shutDown := by rw [hs.refusal?_eq, if_pos hc.2]
      obtain ⟨-, outcome, hout, hh⟩ := submit_of_refusal?_eq_some (h := h) hr job
      rw [hh]
      cases outcome with
      | accepted => exact absurd rfl hout
      | rejected => simp
      | broken fault => simp
    | askIdle => exact ⟨rfl, rfl⟩
    | askTerminated => exact ⟨rfl, rfl⟩
    | shutDown => exact silent rfl
    | shutDownNow => exact silent rfl
  | work => exact hc.history_work
  | change f => exact ⟨rfl, rfl⟩

theorem Closing.history_run (hc : s.Closing) (hs : s.queue.Sound) (moves : List (Move J W)) :
    (s.run h moves).history.started = s.history.started ∧
      (s.run h moves).history.accepted = s.history.accepted := by
  refine (run_induction (h := h) (P := fun s' => (s'.Closing ∧ s'.queue.Sound) ∧
    s'.history.started = s.history.started ∧ s'.history.accepted = s.history.accepted)
    ⟨⟨hc, hs⟩, rfl, rfl⟩ (fun s' m hp => ?_) moves).2
  obtain ⟨⟨hc', hs'⟩, hstarted, haccepted⟩ := hp
  obtain ⟨h₁, h₂⟩ := hc'.history_move (h := h) hs' m
  exact ⟨⟨hc'.move m, sound_move hs' m⟩, h₁.trans hstarted, h₂.trans haccepted⟩

theorem ofJob_of_cancelled (ho : Ordered s) {i : Nat} (ha : i ∈ s.history.accepted)
    (hs : i ∉ s.history.started) (hp : s.queue.pending = []) :
    s.history.ofJob i = [.submitted i .accepted, .rejected .worker i .cancelled] := by
  have hc : i ∈ s.history.cancelled := by
    rw [ho.fifo, hp] at ha
    simpa [hs] using ha
  obtain ⟨e, he, hid⟩ := List.mem_filterMap.1 hc
  obtain ⟨reason, rfl⟩ : ∃ reason, e = .rejected .worker i reason := by
    rcases e with _ | _ | _ | ⟨_ | _, id, reason⟩ <;> cases hid
    exact ⟨reason, rfl⟩
  have hmem : Happening.rejected .worker i reason ∈ s.history.ofJob i :=
    List.mem_filter.2 ⟨he, by simp [Happening.job]⟩
  have hlife := ho.life i (ho.accepted_lt ha)
  generalize s.history.ofJob i = t at hlife hmem
  cases hlife with
  | rejected reason' outcome early refused => simp at hmem
  | waiting => simp at hmem
  | running => simp at hmem
  | ended fault => simp at hmem
  | cancelled => rfl

end Watch

/-! ## Whole runs -/

/-- A board on which the policy returns. -/
def sampleBoard : ProbeBoard := ⟨[], fun _ _ => none, []⟩

/-- A probe that waits for a latch runs while another one waits, and the jobs that wait are dropped
before the latch is opened. -/
def droppingMoves : List (Move Probe ProbeBoard) :=
  [.call (.submit { id := "held", latch := some "latch" }), .work, .work,
    .call (.submit { id := "late" }), .call .shutDownNow, .change fun b => b.openLatch "latch",
    .work, .work, .work, .work, .work, .work]

theorem patient_probe : Patient ProbeBoard.handler := by
  have waits {p : Probe} {b : ProbeBoard} {rest : Unit}
      (hw : (ProbeBoard.finish p b).1 = .waiting rest) : False := by
    unfold ProbeBoard.finish at hw
    split at hw <;> cases hw
  constructor
  · intro p b rest hw
    simp only [ProbeBoard.handler, ProbeBoard.start] at hw ⊢
    split at hw
    · exact (waits hw).elim
    next hclosed =>
      rw [if_neg hclosed]
      simpa using hclosed
  · intro p rest b rest' hw
    exact (waits hw).elim

theorem returning_droppingMoves :
    Watch.Returning ProbeBoard.handler droppingMoves (Watch.begin 2 sampleBoard) := by
  simp only [droppingMoves, Watch.Returning]
  refine ⟨?_, ?_, ?_, ?_, ?_, ?_, ?_, ?_, ?_, ?_, ?_, ?_, ?_⟩ <;> exact fun _ _ _ => rfl

end Courier.Queue
