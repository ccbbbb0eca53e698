import Courier.Proofs.Queue.Fates
import Courier.Proofs.Queue.Soundness

/-!
# The slots of a queue

`slots_of_run`: in every run of a queue, whatever its jobs and its policy do, the slots that are taken
are those of the accepted jobs that neither ended nor were cancelled, whenever the worker is at rest.
There are never more than the capacity, none is freed twice, and whether a job is accepted depends on
the calls that came before and on the slots alone.

The history gives the jobs that are unfinished, the queue gives the slots that are taken;
`occupied_add` compares the two at every moment.
-/

namespace Courier.Queue

variable {J R W : Type} {h : Handler J R W} {q q' : Queue J R} {w w' : W} {s : Watch J R W}

/-! ## Unfinished jobs -/

/-- Whether a job is done with: its run is over, or the worker called the policy for it. -/
def Happening.finishes (id : Nat) : Happening → Bool
  | .ended i _ | .rejected .worker i _ => i == id
  | .submitted .. | .started _ | .rejected .caller .. => false

/-- The jobs that were accepted and are not done with, in this order. -/
def History.unfinished (t : History) : List Nat :=
  t.accepted.filter fun id => ! t.any (Happening.finishes id)

theorem Happening.job_of_finishes {e : Happening} {id : Nat} (he : e.finishes id = true) :
    e.job = id := by
  rcases e with _ | _ | _ | ⟨_ | _⟩
  · cases he
  · cases he
  · exact beq_iff_eq.1 he
  · cases he
  · exact beq_iff_eq.1 he

theorem History.any_finishes (t : History) (id : Nat) :
    t.any (Happening.finishes id) = (t.ofJob id).any (Happening.finishes id) := by
  rw [Bool.eq_iff_iff, List.any_eq_true, List.any_eq_true]
  constructor
  · rintro ⟨e, he, hf⟩
    exact ⟨e, List.mem_filter.2 ⟨he, by simpa using e.job_of_finishes hf⟩, hf⟩
  · rintro ⟨e, he, hf⟩
    exact ⟨e, (List.mem_filter.1 he).1, hf⟩

theorem History.any_finishes_of_mem_cancelled {t : History} {id : Nat} (hc : id ∈ t.cancelled) :
    t.any (Happening.finishes id) = true := by
  obtain ⟨e, he, hid⟩ := List.mem_filterMap.1 hc
  refine List.any_eq_true.2 ⟨e, he, ?_⟩
  rcases e with _ | _ | _ | ⟨_ | _⟩ <;> cases hid
  exact beq_self_eq_true id

namespace Phase

/-- A job that runs goes on to run, or ends. -/
theorem running_or_ended {id : Nat} {cancelling : Bool} {p : Phase} {t : History}
    (hp : (⟨some id, cancelling⟩ : Phase).after t = some p) :
    p.running = some id ∨ ∃ fault, .ended id fault ∈ t := by
  induction t with
  | nil =>
    obtain rfl : (⟨some id, cancelling⟩ : Phase) = p := by simpa [after] using hp
    exact .inl rfl
  | cons e t ih =>
    have later (h : (⟨some id, cancelling⟩ : Phase).after t = some p) :
        p.running = some id ∨ ∃ fault, .ended id fault ∈ e :: t :=
      (ih h).imp_right (Exists.imp fun _ => .tail _)
    rw [after_cons] at hp
    cases e with
    | started i => simp [next] at hp
    | ended i fault =>
      by_cases hi : id = i
      · exact .inr ⟨fault, by rw [hi]; exact .head _⟩
      · simp [next, hi] at hp
    | rejected side i reason =>
      cases side with
      | worker => simp [next] at hp
      | caller => exact later hp
    | submitted i outcome => exact later hp

/-- A job that was started runs in the end, or ended. -/
theorem running_or_ended_of_started {id : Nat} {p p' : Phase} {t : History}
    (hp : p.after t = some p') (hs : id ∈ t.started) :
    p'.running = some id ∨ ∃ fault, .ended id fault ∈ t := by
  induction t generalizing p with
  | nil => cases hs
  | cons e t ih =>
    rw [after_cons] at hp
    obtain ⟨p₁, h₁, h₂⟩ := Option.bind_eq_some_iff.1 hp
    rw [History.started_cons, List.mem_append] at hs
    obtain hs | hs := hs
    · -- the run that starts here is the one that the phase remembers
      obtain rfl : e = .started id := by cases e <;> simp_all
      rw [next] at h₁
      split_ifs at h₁
      cases h₁
      exact (running_or_ended h₂).imp_right (Exists.imp fun _ => .tail _)
    · exact (ih h₂ hs).imp_right (Exists.imp fun _ => .tail _)

end Phase

namespace Ordered

theorem inRun_of_started (ho : Ordered s) {id : Nat} (hs : id ∈ s.history.started)
    (hu : s.history.any (Happening.finishes id) = false) :
    (inRun s.queue.worker).map Prod.fst = some id := by
  obtain ⟨p, hp, hrun, -⟩ := ho.phase
  rw [← hrun]
  refine (Phase.running_or_ended_of_started hp hs).resolve_right ?_
  rintro ⟨fault, hm⟩
  rw [List.any_eq_true.2 ⟨_, hm, beq_self_eq_true id⟩] at hu
  cases hu

theorem started_of_inRun (ho : Ordered s) {job : Nat × J} (hj : inRun s.queue.worker = some job) :
    job.1 ∈ s.history.started ∧ s.history.any (Happening.finishes job.1) = false := by
  have hlife := ho.runs job hj
  have he : .started job.1 ∈ s.history.ofJob job.1 := by rw [hlife]; simp
  refine ⟨List.mem_filterMap.2 ⟨_, (List.mem_filter.1 he).1, rfl⟩, ?_⟩
  rw [History.any_finishes, hlife]
  rfl

/-- The started jobs that are not done with are the one that runs. -/
theorem filter_started (ho : Ordered s) :
    s.history.started.filter (fun id => ! s.history.any (Happening.finishes id)) =
      ((inRun s.queue.worker).map Prod.fst).toList := by
  have hn : s.history.started.Nodup := by
    have ha : s.history.accepted.Nodup := ho.increasing.imp Nat.ne_of_lt
    rw [ho.fifo, List.append_assoc] at ha
    exact (List.nodup_append.1 ha).1
  cases hj : inRun s.queue.worker with
  | none =>
    refine List.filter_eq_nil_iff.2 fun id hid hu => ?_
    have h := ho.inRun_of_started hid (by simpa using hu)
    rw [hj] at h
    cases h
  | some job =>
    refine List.perm_singleton.1 ((List.perm_ext_iff_of_nodup (hn.filter _)
      (List.pairwise_singleton _ _)).2 fun id => ?_)
    rw [List.mem_filter, List.mem_singleton]
    constructor
    · rintro ⟨hid, hu⟩
      have h := ho.inRun_of_started hid (by simpa using hu)
      rw [hj] at h
      exact (Option.some.inj h).symm
    · rintro rfl
      obtain ⟨hid, hu⟩ := ho.started_of_inRun hj
      exact ⟨hid, by rw [hu]; rfl⟩

/-- The unfinished jobs are the one that runs, and those that are pending. -/
theorem unfinished_eq (ho : Ordered s) :
    s.history.unfinished =
      ((inRun s.queue.worker).map Prod.fst).toList ++ s.queue.pending.map Prod.fst := by
  have cancelled : s.history.cancelled.filter
      (fun id => ! s.history.any (Happening.finishes id)) = [] := by
    refine List.filter_eq_nil_iff.2 fun id hid => ?_
    rw [History.any_finishes_of_mem_cancelled hid]
    exact Bool.false_ne_true
  have pending : (s.queue.pending.map Prod.fst).filter
      (fun id => ! s.history.any (Happening.finishes id)) = s.queue.pending.map Prod.fst := by
    refine List.filter_eq_self.2 fun id hid => ?_
    obtain ⟨job, hj, rfl⟩ := List.mem_map.1 hid
    rw [History.any_finishes, ho.waits job hj]
    rfl
  unfold History.unfinished
  rw [ho.fifo, List.filter_append, List.filter_append, ho.filter_started, cancelled, pending,
    List.append_nil]

end Ordered

/-! ## Slots and jobs -/

/-- The jobs whose run is over while their slots are taken. -/
def overdue : Worker J R → Nat
  | .returned .. => 1
  | .ready | .received _ | .running .. | .dropping _ | .stopped | .broken _ => 0

/-- The jobs whose slots are free while the policy is not called yet. -/
def ahead : Worker J R → Nat
  | .dropping _ => 1
  | .ready | .received _ | .running .. | .returned .. | .stopped | .broken _ => 0

/-- The slots that are taken and the unfinished jobs, at every moment: a slot is freed after the run
of its job is over, but before the policy is called for its job. -/
theorem occupied_add (ho : Ordered s) (hs : s.queue.Sound) :
    s.queue.occupied + ahead s.queue.worker =
      s.history.unfinished.length + overdue s.queue.worker := by
  rw [hs.occupied, ho.unfinished_eq, unstarted, pending]
  cases hw : s.queue.worker <;> simp [received, inHand, inRun, busy, ahead, overdue]

theorem occupied_of_step_eq_none (ho : Ordered s) (hs : s.queue.Sound)
    (hn : s.queue.step (watch h) s.world = none) :
    s.queue.occupied = s.history.unfinished.length := by
  have hadd := occupied_add ho hs
  rcases step_eq_none_iff.1 hn with ⟨hw, -⟩ | ⟨job, rest, hw, -⟩ | hw | ⟨fault, hw⟩ <;>
    simpa [hw, ahead, overdue] using hadd

/-- The slots that the next action of the worker frees. -/
def freed (q : Queue J R) : Nat :=
  match q.worker with
  | .received _ => if q.cancelled then 1 else 0
  | .returned .. => 1
  | .ready | .running .. | .dropping _ | .stopped | .broken _ => 0

theorem Sound.freed_le (hs : Sound q) : q.freed ≤ q.occupied := by
  rw [hs.occupied, unstarted]
  unfold freed
  cases hw : q.worker <;> simp [received, busy]
  split <;> omega

theorem occupied_proceed (q : Queue J R) (job : J) (progress : Progress R) :
    (q.proceed job progress).occupied = q.occupied := by
  cases progress <;> rfl

theorem Acts.occupied_eq (ha : Acts h q w q' w') : q'.occupied = q.occupied - q.freed := by
  unfold freed
  cases ha with
  | receive job more ready waiting => simp [ready]
  | stop ready waiting closed => simp [ready]
  | drop job received cancelled => simp [received, cancelled, release]
  | start job received kept => simp [received, kept, occupied_proceed]
  | resume job rest running free => simp [running, occupied_proceed]
  | finish job fault returned => simp [returned, release]
  | dispose job dropping whole => simp [dropping]
  | breakOff job fault dropping broken => simp [dropping]

theorem Acts.capacity_eq (ha : Acts h q w q' w') : q'.capacity = q.capacity := by
  cases ha with
  | start job received kept => cases (h.start job w).1 <;> rfl
  | resume job rest running free => cases (h.resume job rest w).1 <;> rfl
  | _ => rfl

theorem capacity_shutDown (h : Handler J R W) (q : Queue J R) (w : W) :
    (q.shutDown h w).1.capacity = q.capacity := by
  unfold shutDown
  split <;> rfl

/-- A queue with its books in order refuses jobs once it is shut down, and else those for which there
is no slot. -/
theorem Sound.refusal?_eq (hs : Sound q) :
    q.refusal? = if q.accepting = false then some .shutDown
      else if q.capacity ≤ q.occupied then some .queueFull else none := by
  have whole (ha : ¬ q.accepting = false) : ¬ q.isBroken = true := by
    intro hb
    unfold isBroken at hb
    split at hb
    next fault hw => exact ha (hs.cancelled (hs.dropping (by rw [hw]; rfl)))
    · cases hb
  unfold refusal?
  simp only [Bool.not_eq_true]
  split_ifs with ha ho hb
  · rfl
  · rfl
  · exact absurd hb (whole ha)
  · rfl

/-! ## Runs -/

/-- Whether a move shuts the queue down. -/
def Move.shutsDown : Move J W → Bool
  | .call .shutDown | .call .shutDownNow => true
  | .call (.submit _) | .call .askIdle | .call .askTerminated | .work | .change _ => false

namespace Watch

/-- What a move does to the queue. -/
inductive Turns (h : Handler J R W) (s : Watch J R W) : Move J W → Queue (Nat × J) R → Prop where
  | stay (m : Move J W) (leaves : m.shutsDown = false) : Turns h s m s.queue
  | accept (job : J) (room : s.queue.refusal? = none) :
      Turns h s (.call (.submit job)) { s.queue with
        occupied := s.queue.occupied + 1
        waiting := s.queue.waiting ++ [(s.submitted, job)] }
  | shutDown : Turns h s (.call .shutDown) (s.queue.shutDown (watch h) s.world).1
  | shutDownNow : Turns h s (.call .shutDownNow) (s.queue.shutDownNow (watch h) s.world).1
  | act (q' : Queue (Nat × J) R) (w' : Watched W)
      (acts : Acts (watch h) s.queue s.world q' w') : Turns h s .work q'

theorem turns (h : Handler J R W) (s : Watch J R W) (m : Move J W) :
    Turns h s m (s.move h m).queue := by
  cases m with
  | call c =>
    cases c with
    | submit job =>
      cases hr : s.queue.refusal? with
      | none =>
        rw [move_submit_of_refusal?_eq_none hr]
        exact .accept job hr
      | some reason =>
        obtain ⟨fault, world, hm⟩ := move_submit_of_refusal?_eq_some (h := h) hr job
        rw [hm]
        exact .stay _ rfl
    | askIdle => exact .stay _ rfl
    | askTerminated => exact .stay _ rfl
    | shutDown => exact .shutDown
    | shutDownNow => exact .shutDownNow
  | work =>
    cases hs : s.queue.step (watch h) s.world with
    | none =>
      rw [move_work_of_step_eq_none hs]
      exact .stay _ rfl
    | some p =>
      obtain ⟨q', w'⟩ := p
      rw [move_work_of_step hs]
      exact .act q' w' (acts_of_step hs)
  | change f => exact .stay _ rfl

theorem sound_move (hs : s.queue.Sound) (m : Move J W) : (s.move h m).queue.Sound := by
  have ht := turns h s m
  generalize (s.move h m).queue = q' at ht
  cases ht with
  | stay m leaves => exact hs
  | accept job room => exact hs.accept room _
  | shutDown => exact hs.shutDown
  | shutDownNow => exact hs.shutDownNow
  | act q' w' acts => exact hs.acts acts

theorem capacity_move (s : Watch J R W) (m : Move J W) :
    (s.move h m).queue.capacity = s.queue.capacity := by
  have ht := turns h s m
  generalize (s.move h m).queue = q' at ht
  cases ht with
  | stay m leaves => rfl
  | accept job room => rfl
  | shutDown => exact capacity_shutDown _ _ _
  | shutDownNow => exact capacity_shutDown _ _ _
  | act q' w' acts => exact acts.capacity_eq

/-- Only the calls that shut a queue down end its accepting. -/
theorem accepting_move (s : Watch J R W) (m : Move J W) :
    (s.move h m).queue.accepting = (s.queue.accepting && ! m.shutsDown) := by
  have ht := turns h s m
  generalize (s.move h m).queue = q' at ht
  cases ht with
  | stay m leaves => rw [leaves]; exact (Bool.and_true _).symm
  | accept job room => exact (Bool.and_true _).symm
  | shutDown => exact (accepting_shutDown _ _ _).trans (Bool.and_false _).symm
  | shutDownNow => exact (accepting_shutDown _ _ _).trans (Bool.and_false _).symm
  | act q' w' acts => exact acts.accepting_eq.trans (Bool.and_true _).symm

theorem sound_run (h : Handler J R W) (capacity : Nat) (w : W) (moves : List (Move J W)) :
    ((begin capacity w).run h moves).queue.Sound :=
  run_induction (P := fun s => s.queue.Sound) (sound_create capacity)
    (fun _ m hs => sound_move hs m) moves

theorem capacity_run (h : Handler J R W) (capacity : Nat) (w : W) (moves : List (Move J W)) :
    ((begin capacity w).run h moves).queue.capacity = max capacity 1 :=
  run_induction (P := fun s => s.queue.capacity = max capacity 1) rfl
    (fun s m hs => (capacity_move s m).trans hs) moves

theorem accepting_run (h : Handler J R W) (s : Watch J R W) (moves : List (Move J W)) :
    (s.run h moves).queue.accepting = (s.queue.accepting && ! moves.any Move.shutsDown) := by
  induction moves generalizing s with
  | nil => exact (Bool.and_true _).symm
  | cons m more ih =>
    show ((s.move h m).run h more).queue.accepting = _
    rw [ih, accepting_move, List.any_cons, Bool.not_or, Bool.and_assoc]

theorem history_submit_of_refusal?_eq_none (hq : s.queue.refusal? = none) (job : J) :
    (s.move h (.call (.submit job))).history = s.history ++ [.submitted s.submitted .accepted] := by
  rw [move_submit_of_refusal?_eq_none hq]
  rfl

/-- A job that is refused leaves the queue alone, and is rejected with the reason. -/
theorem submit_of_refusal?_eq_some {reason : RejectReason} (hq : s.queue.refusal? = some reason)
    (job : J) :
    (s.move h (.call (.submit job))).queue = s.queue ∧ ∃ outcome, outcome ≠ .accepted ∧
      (s.move h (.call (.submit job))).history = s.history ++
        [.rejected .caller s.submitted reason, .submitted s.submitted outcome] := by
  obtain ⟨fault, world, hm⟩ := move_submit_of_refusal?_eq_some (h := h) hq job
  rw [hm]
  exact ⟨rfl, refused fault, refused_ne_accepted fault, rfl⟩

end Watch

/-- **Slots.** Take any run of a queue, whatever its jobs and its policy do. When the worker is at
rest, the slots that are taken are as many as the accepted jobs that neither ended nor were cancelled.
At every moment they are within the capacity, and an action of the worker frees only what was taken.
A job is accepted exactly if nothing shut the queue down before and there is a slot; otherwise it is
rejected with the reason for this, and the queue stays as it was, even if the policy breaks off. -/
theorem slots_of_run (h : Handler J R W) (capacity : Nat) (w : W) (moves : List (Move J W)) :
    let s := (Watch.begin capacity w).run h moves
    let shut := moves.any Move.shutsDown
    (s.queue.step (watch h) s.world = none → s.queue.occupied = s.history.unfinished.length) ∧
    s.queue.occupied ≤ max capacity 1 ∧
    (∀ q' w', s.queue.step (watch h) s.world = some (q', w') →
      q'.occupied + s.queue.freed = s.queue.occupied) ∧
    ∀ job, let s' := s.move h (.call (.submit job))
      (s'.history = s.history ++ [.submitted s.submitted .accepted] ↔
        shut = false ∧ s.queue.occupied < max capacity 1) ∧
      (s'.history ≠ s.history ++ [.submitted s.submitted .accepted] →
        s'.queue = s.queue ∧ ∃ outcome, outcome ≠ .accepted ∧
          s'.history = s.history ++
            [.rejected .caller s.submitted (if shut then .shutDown else .queueFull),
              .submitted s.submitted outcome]) := by
  intro s shut
  have ho : Ordered s := ordered_run h capacity w moves
  have hs : s.queue.Sound := Watch.sound_run h capacity w moves
  have hc : s.queue.capacity = max capacity 1 := Watch.capacity_run h capacity w moves
  have ha : s.queue.accepting = ! shut := Watch.accepting_run h (Watch.begin capacity w) moves
  refine ⟨occupied_of_step_eq_none ho hs, hc ▸ hs.room, fun q' w' hst => ?_, fun job => ?_⟩
  · rw [(acts_of_step hst).occupied_eq]
    exact Nat.sub_add_cancel hs.freed_le
  · have hr := hs.refusal?_eq
    rw [ha, hc] at hr
    intro s'
    cases hq : s.queue.refusal? with
    | none =>
      have hs' : s'.history = s.history ++ [.submitted s.submitted .accepted] :=
        Watch.history_submit_of_refusal?_eq_none hq job
      refine ⟨iff_of_true hs' ?_, fun hne => absurd hs' hne⟩
      rw [hq] at hr
      split_ifs at hr with hshut hfull
      exact ⟨by simpa using hshut, Nat.lt_of_not_le hfull⟩
    | some reason =>
      obtain ⟨hqueue, outcome, hout, hs'⟩ := Watch.submit_of_refusal?_eq_some (h := h) hq job
      have hreason : reason = (if shut then .shutDown else .queueFull) ∧
          ¬ (shut = false ∧ s.queue.occupied < max capacity 1) := by
        rw [hq] at hr
        split_ifs at hr with hshut hfull
        · cases hr
          have hshut : shut = true := by simpa using hshut
          simp [hshut]
        · cases hr
          have hshut : shut = false := by simpa using hshut
          simp [hshut, Nat.not_lt.2 hfull]
      rw [← hreason.1]
      refine ⟨iff_of_false (fun he => ?_) hreason.2, fun _ => ⟨hqueue, outcome, hout, hs'⟩⟩
      have hlength := congrArg List.length (hs'.symm.trans he)
      simp at hlength

end Courier.Queue
