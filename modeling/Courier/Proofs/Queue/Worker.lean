import Courier.Queue.Basic
import Mathlib.Tactic.Common

/-!
# The actions of the worker

`Queue.Acts` lists what one action of the worker can do, each case with its guard. `acts_of_step`
says that `Queue.step` does nothing else, and `step_eq_none_iff` when there is no action at all.
`settled_settle` says that a queue is settled for good by `Queue.settle`, if no run that waits could
go on at once.
-/

namespace Courier.Queue

variable {J R W : Type} {h : Handler J R W} {q q' : Queue J R} {w w' : W}

/-! ## One action -/

/-- Log the fault of a run that is over, if there was one. -/
def logFault (h : Handler J R W) (job : J) (fault : Option Fault) (w : W) : W :=
  match fault with
  | some f => h.log .worker (some job) (.jobFaulted f.describe) w
  | none => w

/-- What one action of the worker does to a queue and its surroundings. -/
inductive Acts (h : Handler J R W) (q : Queue J R) (w : W) : Queue J R → W → Prop where
  | receive (job : J) (more : List J) (ready : q.worker = .ready)
      (waiting : q.waiting = job :: more) :
      Acts h q w { q with waiting := more, worker := .received job } w
  | stop (ready : q.worker = .ready) (waiting : q.waiting = []) (closed : q.accepting = false) :
      Acts h q w { q with worker := .stopped, state := .terminated } w
  | drop (job : J) (received : q.worker = .received job) (cancelled : q.cancelled = true) :
      Acts h q w { q.release with worker := .dropping job } w
  | start (job : J) (received : q.worker = .received job) (kept : q.cancelled = false) :
      Acts h q w (q.proceed job (h.start job w).1) (h.start job w).2
  | resume (job : J) (rest : R) (running : q.worker = .running job rest)
      (free : h.canResume job rest w = true) :
      Acts h q w (q.proceed job (h.resume job rest w).1) (h.resume job rest w).2
  | finish (job : J) (fault : Option Fault) (returned : q.worker = .returned job fault) :
      Acts h q w { q.release with worker := .ready } (logFault h job fault w)
  | dispose (job : J) (dropping : q.worker = .dropping job)
      (whole : (h.reject .worker job .cancelled w).1 = none) :
      Acts h q w { q with worker := .ready } (h.reject .worker job .cancelled w).2
  | breakOff (job : J) (fault : Fault) (dropping : q.worker = .dropping job)
      (broken : (h.reject .worker job .cancelled w).1 = some fault) :
      Acts h q w { q with worker := .broken fault } (h.reject .worker job .cancelled w).2

theorem acts_of_step (hs : q.step h w = some (q', w')) : Acts h q w q' w' := by
  unfold step at hs
  split at hs
  next ready =>
    split at hs
    next job more waiting =>
      cases hs
      exact .receive job more ready waiting
    next waiting =>
      split at hs
      · cases hs
      next closed =>
        cases hs
        exact .stop ready waiting (by simpa using closed)
  next job received =>
    split at hs
    next cancelled =>
      cases hs
      exact .drop job received cancelled
    next kept =>
      cases hs
      exact .start job received (by simpa using kept)
  next job rest running =>
    split at hs
    next free =>
      cases hs
      exact .resume job rest running free
    · cases hs
  next job fault returned =>
    cases hs
    exact .finish job fault returned
  next job dropping =>
    split at hs
    next w'' he =>
      cases hs
      have hw : w' = (h.reject .worker job .cancelled w).2 := by rw [he]
      rw [hw]
      exact .dispose job dropping (by rw [he])
    next fault w'' he =>
      cases hs
      have hw : w' = (h.reject .worker job .cancelled w).2 := by rw [he]
      rw [hw]
      exact .breakOff job fault dropping (by rw [he])
  · cases hs
  · cases hs

/-- The worker has nothing to do: it waits for a job, a run waits, or it has come to its end. -/
theorem step_eq_none_iff : q.step h w = none ↔
    (q.worker = .ready ∧ q.waiting = [] ∧ q.accepting = true) ∨
      (∃ job rest, q.worker = .running job rest ∧ h.canResume job rest w = false) ∨
      q.worker = .stopped ∨ ∃ fault, q.worker = .broken fault := by
  unfold step
  cases hw : q.worker with
  | ready => cases hq : q.waiting <;> cases ha : q.accepting <;> simp
  | received job => cases hc : q.cancelled <;> simp
  | running job rest =>
    constructor
    · intro hs
      exact .inr (.inl ⟨job, rest, rfl, by simpa using hs⟩)
    · rintro (⟨⟨⟩, -⟩ | ⟨_, _, ⟨⟩, hr⟩ | ⟨⟨⟩⟩ | ⟨_, ⟨⟩⟩)
      simp [hr]
  | returned job fault => simp
  | dropping job =>
    rcases hr : h.reject .worker job .cancelled w with ⟨_ | fault, w'⟩ <;> simp only [hr] <;> simp
  | stopped => simp
  | broken fault => simp

/-! ## Submitting -/

/-- The outcome of a submission that was refused. -/
def refused : Option Fault → Submission
  | none => .rejected
  | some fault => .broken fault

theorem refused_ne_accepted (fault : Option Fault) : refused fault ≠ .accepted := by
  cases fault <;> simp [refused]

theorem submit_of_refusal?_eq_none (hr : q.refusal? = none) (job : J) :
    q.submit h job w =
      (.accepted, { q with occupied := q.occupied + 1, waiting := q.waiting ++ [job] }, w) := by
  simp [submit, hr]

theorem submit_of_refusal?_eq_some {reason : RejectReason} (hr : q.refusal? = some reason)
    (job : J) :
    q.submit h job w =
      let w := h.log .caller (some job) (.jobRejected reason q.occupied) w
      (refused (h.reject .caller job reason w).1, q, (h.reject .caller job reason w).2) := by
  rcases he : h.reject .caller job reason (h.log .caller (some job) (.jobRejected reason q.occupied) w)
    with ⟨_ | fault, w'⟩ <;> simp [submit, hr, he, refused]

theorem refusal?_eq_some {reason : RejectReason} (hr : q.refusal? = some reason) :
    reason = .queueFull ∨ reason = .shutDown := by
  unfold refusal? at hr
  split_ifs at hr
  all_goals
    cases hr
    simp

/-! ## Settling -/

/-- A run that comes to wait cannot go on at once. -/
structure Patient (h : Handler J R W) : Prop where
  start : ∀ job w rest, (h.start job w).1 = .waiting rest →
    h.canResume job rest (h.start job w).2 = false
  resume : ∀ job rest w rest', (h.resume job rest w).1 = .waiting rest' →
    h.canResume job rest' (h.resume job rest w).2 = false

/-- How many actions a worker has before it at most, besides those for jobs that wait. -/
def workLeft : Worker J R → Nat
  | .stopped | .broken _ => 0
  | .ready => 1
  | .returned .. | .dropping _ => 2
  | .received _ | .running .. => 3

/-- A bound on the actions up to the next rest. -/
def actionsLeft (q : Queue J R) : Nat := 3 * q.waiting.length + workLeft q.worker

theorem actionsLeft_le_bound (q : Queue J R) : q.actionsLeft ≤ q.bound := by
  have hw : workLeft q.worker ≤ 3 := by cases q.worker <;> simp [workLeft]
  unfold actionsLeft bound
  omega

theorem step_proceed_eq_none {job : J} {rest : R} (hr : h.canResume job rest w = false) :
    (q.proceed job (.waiting rest)).step h w = none :=
  step_eq_none_iff.2 (.inr (.inl ⟨job, rest, rfl, hr⟩))

/-- An action brings the worker closer to its next rest, or to the rest itself. -/
theorem Acts.actionsLeft_lt (hp : Patient h) (ha : Acts h q w q' w') :
    q'.actionsLeft < q.actionsLeft ∨ q'.step h w' = none := by
  cases ha with
  | receive job more ready waiting =>
    left; simp only [actionsLeft, ready, waiting, workLeft, List.length_cons]; omega
  | stop ready waiting closed => left; simp [actionsLeft, ready, workLeft]
  | drop job received cancelled =>
    left; simp only [actionsLeft, received, workLeft, release]; omega
  | start job received kept =>
    cases hs : (h.start job w).1 with
    | done fault => left; simp only [actionsLeft, received, workLeft, proceed]; omega
    | waiting rest => right; exact step_proceed_eq_none (hp.start job w rest hs)
  | resume job rest running free =>
    cases hs : (h.resume job rest w).1 with
    | done fault => left; simp only [actionsLeft, running, workLeft, proceed]; omega
    | waiting rest' => right; exact step_proceed_eq_none (hp.resume job rest w rest' hs)
  | finish job fault returned =>
    left; simp only [actionsLeft, returned, workLeft, release]; omega
  | dispose job dropping whole => left; simp only [actionsLeft, dropping, workLeft]; omega
  | breakOff job fault dropping broken =>
    left; simp only [actionsLeft, dropping, workLeft]; omega

theorem run_of_step_eq_none (hn : q.step h w = none) (fuel : Nat) : run h fuel q w = (q, w) := by
  cases fuel <;> simp [run, hn]

theorem run_succ (hs : q.step h w = some (q', w')) (fuel : Nat) :
    run h (fuel + 1) q w = run h fuel q' w' := by
  simp [run, hs]

theorem settled_run (hp : Patient h) {fuel : Nat} (hf : q.actionsLeft ≤ fuel) :
    (run h fuel q w).1.step h (run h fuel q w).2 = none := by
  induction fuel generalizing q w with
  | zero =>
    show q.step h w = none
    cases hs : q.step h w with
    | none => rfl
    | some p =>
      obtain ⟨q', w'⟩ := p
      obtain hlt | hn := (acts_of_step hs).actionsLeft_lt hp
      · omega
      · -- only a worker at its end has no action left
        have hw : workLeft q.worker = 0 := by unfold actionsLeft at hf; omega
        have he : q.step h w = none := by
          rw [step_eq_none_iff]
          cases hq : q.worker <;> simp_all [workLeft]
        rw [hs] at he
        cases he
  | succ fuel ih =>
    cases hs : q.step h w with
    | none => rw [run_of_step_eq_none hs]; exact hs
    | some p =>
      obtain ⟨q', w'⟩ := p
      rw [run_succ hs]
      obtain hlt | hn := (acts_of_step hs).actionsLeft_lt hp
      · exact ih (by omega)
      · rw [run_of_step_eq_none hn]; exact hn

theorem settled_settle (hp : Patient h) (q : Queue J R) (w : W) :
    (q.settle h w).1.step h (q.settle h w).2 = none :=
  settled_run hp q.actionsLeft_le_bound

end Courier.Queue
