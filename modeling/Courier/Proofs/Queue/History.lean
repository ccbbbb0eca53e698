import Courier.Proofs.Queue.Worker

/-!
# Watching a queue

What becomes of the jobs of a queue, written down as it happens. Jobs are numbered in the order in
which they are submitted. `watch h` does what the handler `h` does, and notes every run that starts
or ends and every call of the policy; the end of each submission is noted by `Watch.move`.

A run, `Watch.run`, is any sequence of calls, of single actions of the worker, and of changes of the
surroundings such as the opening of a latch.
-/

namespace Courier.Queue

variable {J R W : Type}

/-! ## Histories -/

/-- What can happen to a job. -/
inductive Happening where
  /-- The call that submitted it returned or broke off. -/
  | submitted (id : Nat) (outcome : Submission)
  | started (id : Nat)
  | ended (id : Nat) (fault : Option Fault)
  /-- The policy was called for it. -/
  | rejected (side : Side) (id : Nat) (reason : RejectReason)
  deriving DecidableEq, Repr

/-- The job to which something happens. -/
def Happening.job : Happening → Nat
  | .submitted id _ | .started id | .ended id _ | .rejected _ id _ => id

/-- The job, if it was accepted. -/
@[simp] def Happening.accepted? : Happening → Option Nat
  | .submitted id .accepted => some id
  | .submitted _ .rejected | .submitted _ (.broken _) | .started _ | .ended .. | .rejected .. => none

theorem Happening.job_of_accepted? {e : Happening} {id : Nat} (he : e.accepted? = some id) :
    e.job = id := by
  rcases e with ⟨i, _ | _ | _⟩ | _ | _ | _ <;> cases he
  rfl

/-- The job, if it was started. -/
@[simp] def Happening.started? : Happening → Option Nat
  | .started id => some id
  | .submitted .. | .ended .. | .rejected .. => none

/-- The job, if the worker called the policy for it. -/
@[simp] def Happening.cancelled? : Happening → Option Nat
  | .rejected .worker id _ => some id
  | .rejected .caller .. | .submitted .. | .started _ | .ended .. => none

/-- What happened so far, the first thing first. -/
abbrev History := List Happening

namespace History

/-- What happened to one job. -/
def ofJob (t : History) (id : Nat) : History := t.filter fun e => e.job = id

/-- The jobs that were accepted, in this order. -/
def accepted (t : History) : List Nat := t.filterMap Happening.accepted?

/-- The jobs that were started, in this order. -/
def started (t : History) : List Nat := t.filterMap Happening.started?

/-- The jobs for which the worker called the policy, in this order. -/
def cancelled (t : History) : List Nat := t.filterMap Happening.cancelled?

theorem ofJob_append (t u : History) (id : Nat) :
    ofJob (t ++ u) id = ofJob t id ++ ofJob u id := List.filter_append ..

@[simp] theorem accepted_append (t u : History) : accepted (t ++ u) = accepted t ++ accepted u :=
  List.filterMap_append

@[simp] theorem started_append (t u : History) : started (t ++ u) = started t ++ started u :=
  List.filterMap_append

@[simp] theorem cancelled_append (t u : History) :
    cancelled (t ++ u) = cancelled t ++ cancelled u := List.filterMap_append

@[simp] theorem accepted_cons (e : Happening) (t : History) :
    accepted (e :: t) = e.accepted?.toList ++ accepted t := by
  rcases e with ⟨_, _ | _ | _⟩ | _ | _ | _ <;> rfl

@[simp] theorem started_cons (e : Happening) (t : History) :
    started (e :: t) = e.started?.toList ++ started t := by
  cases e <;> rfl

@[simp] theorem cancelled_cons (e : Happening) (t : History) :
    cancelled (e :: t) = e.cancelled?.toList ++ cancelled t := by
  rcases e with _ | _ | _ | ⟨_ | _⟩ <;> rfl

@[simp] theorem accepted_nil : accepted [] = [] := rfl

@[simp] theorem started_nil : started [] = [] := rfl

@[simp] theorem cancelled_nil : cancelled [] = [] := rfl

end History

/-! ## The watched handler -/

/-- Surroundings together with what happened in them. -/
structure Watched (W : Type) where
  world : W
  history : History

/-- The end of a run, if it is over. -/
def endOf (id : Nat) : Progress R → History
  | .done fault => [.ended id fault]
  | .waiting _ => []

@[simp] theorem accepted_endOf (id : Nat) (p : Progress R) : (endOf id p).accepted = [] := by
  cases p <;> rfl

@[simp] theorem started_endOf (id : Nat) (p : Progress R) : (endOf id p).started = [] := by
  cases p <;> rfl

@[simp] theorem cancelled_endOf (id : Nat) (p : Progress R) : (endOf id p).cancelled = [] := by
  cases p <;> rfl

theorem job_of_mem_endOf {id : Nat} {p : Progress R} {e : Happening} (he : e ∈ endOf id p) :
    e.job = id := by
  cases p with
  | done fault => rw [List.mem_singleton.1 he]; rfl
  | waiting rest => cases he

/-- What a handler does, with notes of what happens to the numbered jobs. -/
def watch (h : Handler J R W) : Handler (Nat × J) R (Watched W) where
  start job w :=
    let (progress, world) := h.start job.2 w.world
    (progress, ⟨world, w.history ++ .started job.1 :: endOf job.1 progress⟩)
  canResume job rest w := h.canResume job.2 rest w.world
  resume job rest w :=
    let (progress, world) := h.resume job.2 rest w.world
    (progress, ⟨world, w.history ++ endOf job.1 progress⟩)
  reject side job reason w :=
    let (fault, world) := h.reject side job.2 reason w.world
    (fault, ⟨world, w.history ++ [.rejected side job.1 reason]⟩)
  log side job notice w := { w with world := h.log side (job.map Prod.snd) notice w.world }

/-! ## Runs -/

/-- What can come next in a run. -/
inductive Move (J W : Type) where
  | call (c : Call J)
  /-- The worker takes its next action, if there is one. -/
  | work
  /-- The surroundings change. -/
  | change (f : W → W)

/-- A queue of numbered jobs in its surroundings. -/
structure Watch (J R W : Type) where
  queue : Queue (Nat × J) R
  world : Watched W
  /-- How many jobs were submitted. -/
  submitted : Nat

/-- A call, with the number that its job is given. -/
def Call.numbered (id : Nat) : Call J → Call (Nat × J)
  | .submit job => .submit (id, job)
  | .askIdle => .askIdle
  | .askTerminated => .askTerminated
  | .shutDown => .shutDown
  | .shutDownNow => .shutDownNow

namespace Watch

/-- A new queue, of which nothing was seen yet. -/
def begin (capacity : Nat) (w : W) : Watch J R W := ⟨create capacity, ⟨w, []⟩, 0⟩

/-- Take note of what a call answered. -/
def note (s : Watch J R W) : Answer → Watch J R W
  | .submitted outcome =>
    { s with
      world.history := s.world.history ++ [.submitted s.submitted outcome]
      submitted := s.submitted + 1 }
  | .told _ | .done => s

/-- One move of a run. -/
def move (h : Handler J R W) (s : Watch J R W) : Move J W → Watch J R W
  | .call c =>
    let (answer, queue, world) := s.queue.call (watch h) (c.numbered s.submitted) s.world
    note { s with queue, world } answer
  | .work =>
    match s.queue.step (watch h) s.world with
    | some (queue, world) => { s with queue, world }
    | none => s
  | .change f => { s with world.world := f s.world.world }

/-- A run: moves one after the other. -/
def run (h : Handler J R W) (s : Watch J R W) (moves : List (Move J W)) : Watch J R W :=
  moves.foldl (move h) s

/-- What has happened. -/
def history (s : Watch J R W) : History := s.world.history

theorem move_submit_of_refusal?_eq_none {h : Handler J R W} {s : Watch J R W}
    (hr : s.queue.refusal? = none) (job : J) :
    s.move h (.call (.submit job)) =
      { queue := { s.queue with
          occupied := s.queue.occupied + 1
          waiting := s.queue.waiting ++ [(s.submitted, job)] }
        world := ⟨s.world.world, s.history ++ [.submitted s.submitted .accepted]⟩
        submitted := s.submitted + 1 } := by
  simp only [move, Call.numbered, call, submit_of_refusal?_eq_none hr, note, history]

theorem move_submit_of_refusal?_eq_some {h : Handler J R W} {s : Watch J R W}
    {reason : RejectReason} (hr : s.queue.refusal? = some reason) (job : J) :
    ∃ fault world, s.move h (.call (.submit job)) =
      { queue := s.queue
        world := ⟨world, s.history ++ [.rejected .caller s.submitted reason,
          .submitted s.submitted (refused fault)]⟩
        submitted := s.submitted + 1 } := by
  let result := h.reject .caller job reason
    (h.log .caller (some job) (.jobRejected reason s.queue.occupied) s.world.world)
  refine ⟨result.1, result.2, ?_⟩
  simp only [move, Call.numbered, call, submit_of_refusal?_eq_some hr, note, watch, history,
    List.append_assoc, List.cons_append, List.nil_append]
  rfl

theorem move_work_of_step_eq_none {h : Handler J R W} {s : Watch J R W}
    (hs : s.queue.step (watch h) s.world = none) : s.move h .work = s := by
  unfold move
  rw [hs]

theorem move_work_of_step {h : Handler J R W} {s : Watch J R W} {queue : Queue (Nat × J) R}
    {world : Watched W} (hs : s.queue.step (watch h) s.world = some (queue, world)) :
    s.move h .work = { s with queue, world } := by
  unfold move
  rw [hs]

/-- What is kept by every move is kept by every run. -/
theorem run_induction {h : Handler J R W} {P : Watch J R W → Prop} {s : Watch J R W}
    (begins : P s) (keeps : ∀ s m, P s → P (s.move h m)) (moves : List (Move J W)) :
    P (s.run h moves) := by
  induction moves generalizing s with
  | nil => exact begins
  | cons m more ih => exact ih (keeps s m begins)

end Watch
end Courier.Queue
