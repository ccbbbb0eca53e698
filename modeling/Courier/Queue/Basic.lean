import Courier.Journal

/-!
# Dispatch queues

A queue with a bounded number of slots and one worker, who runs the jobs one at a time in the order
in which they came. A slot is taken from the moment a job is accepted until its run is over, or
until it is dropped. The worker proceeds by single actions, `Queue.step`; `Queue.settle` lets it
proceed until it has to wait. What jobs do is the matter of a `Handler`. What callers ask is data as
well, a `Queue.Call`, made between two actions of the worker.
-/

namespace Courier

/-- How far a queue is on its way to the end. -/
inductive QueueState where
  | running
  | shuttingDown
  | terminated
  deriving DecidableEq, Repr

def QueueState.name : QueueState → String
  | .running => "Running"
  | .shuttingDown => "ShuttingDown"
  | .terminated => "Terminated"

/-- How a run goes on: it is over, perhaps by a fault, or it waits. -/
inductive Progress (R : Type) where
  | done (fault : Option Fault)
  | waiting (rest : R)

/-- What jobs of type `J` do to surroundings of type `W`. A run that waits leaves the rest of it, of
type `R`, behind. -/
structure Handler (J R W : Type) where
  /-- Run a job up to its end or to where it has to wait. -/
  start : J → W → Progress R × W
  /-- Whether a run that waits can go on. -/
  canResume : J → R → W → Bool
  /-- Go on with a run that waited. -/
  resume : J → R → W → Progress R × W
  /-- Dispose of a job that will not run. This may break off. -/
  reject : Side → J → RejectReason → W → Option Fault × W
  /-- Log a line, about a job if there is one. -/
  log : Side → Option J → Notice → W → W

/-- Where the worker is between two of its actions. -/
inductive Worker (J R : Type) where
  /-- About to receive a job, or waiting for one. -/
  | ready
  /-- A job is received and not yet looked at. -/
  | received (job : J)
  /-- The run of a job waits. -/
  | running (job : J) (rest : R)
  /-- The run of a job is over and its slot is still taken. -/
  | returned (job : J) (fault : Option Fault)
  /-- A job is dropped, its slot is free, and the job is not yet disposed of. -/
  | dropping (job : J)
  /-- There is nothing left to do. -/
  | stopped
  /-- Disposing of a job broke off, and with it the worker. -/
  | broken (fault : Fault)

/-- A queue of jobs of type `J` whose runs leave rests of type `R`. -/
structure Queue (J R : Type) where
  capacity : Nat
  /-- Slots that are taken. -/
  occupied : Nat
  /-- Whether jobs can still be submitted. -/
  accepting : Bool
  /-- Whether jobs that are received from now on are dropped. -/
  cancelled : Bool
  state : QueueState
  /-- Jobs that were accepted and not received, the oldest first. -/
  waiting : List J
  worker : Worker J R

namespace Queue

variable {J R W : Type}

/-- An empty queue. It has at least one slot. -/
def create (capacity : Nat) : Queue J R where
  capacity := max capacity 1
  occupied := 0
  accepting := true
  cancelled := false
  state := .running
  waiting := []
  worker := .ready

/-- Free a slot. -/
def release (q : Queue J R) : Queue J R := { q with occupied := q.occupied - 1 }

/-- Whether the worker broke off. -/
def isBroken (q : Queue J R) : Bool :=
  match q.worker with
  | .broken _ => true
  | _ => false

/-! ## The worker -/

/-- Note how the run of a job goes on. -/
def proceed (q : Queue J R) (job : J) : Progress R → Queue J R
  | .done fault => { q with worker := .returned job fault }
  | .waiting rest => { q with worker := .running job rest }

/-- The next action of the worker, unless it has to wait or is at its end. -/
def step (h : Handler J R W) (q : Queue J R) (w : W) : Option (Queue J R × W) :=
  match q.worker with
  | .ready =>
    match q.waiting with
    | job :: more => some ({ q with waiting := more, worker := .received job }, w)
    | [] =>
      if q.accepting then none
      else some ({ q with worker := .stopped, state := .terminated }, w)
  | .received job =>
    if q.cancelled then some ({ q.release with worker := .dropping job }, w)
    else
      let (progress, w) := h.start job w
      some (q.proceed job progress, w)
  | .running job rest =>
    if h.canResume job rest w then
      let (progress, w) := h.resume job rest w
      some (q.proceed job progress, w)
    else none
  | .returned job fault =>
    let w := match fault with
      | some f => h.log .worker (some job) (.jobFaulted f.describe) w
      | none => w
    some ({ q.release with worker := .ready }, w)
  | .dropping job =>
    match h.reject .worker job .cancelled w with
    | (none, w) => some ({ q with worker := .ready }, w)
    | (some fault, w) => some ({ q with worker := .broken fault }, w)
  | .stopped | .broken _ => none

/-- At most `fuel` actions of the worker. -/
def run (h : Handler J R W) : (fuel : Nat) → Queue J R → W → Queue J R × W
  | 0, q, w => (q, w)
  | fuel + 1, q, w =>
    match q.step h w with
    | none => (q, w)
    | some (q, w) => run h fuel q w

/-- A number of actions after which the worker has to wait or is at its end: three for a job, and a
few for the one at hand. -/
def bound (q : Queue J R) : Nat := 4 * q.waiting.length + 6

/-- Let the worker proceed until it has to wait or is at its end. -/
def settle (h : Handler J R W) (q : Queue J R) (w : W) : Queue J R × W := run h q.bound q w

/-! ## The callers -/

/-- Why a job would not be accepted now. -/
def refusal? (q : Queue J R) : Option RejectReason :=
  if ¬ q.accepting then some .shutDown
  else if q.capacity ≤ q.occupied then some .queueFull
  else if q.isBroken then some .shutDown
  else none

/-- What became of a job that was submitted: whether it was accepted, or the fault by which
disposing of it broke off. -/
inductive Submission where
  | accepted
  | rejected
  | broken (fault : Fault)
  deriving DecidableEq, Repr

/-- Submit a job. A job that is not accepted is disposed of at once. -/
def submit (h : Handler J R W) (job : J) (q : Queue J R) (w : W) :
    Submission × Queue J R × W :=
  match q.refusal? with
  | none => (.accepted, { q with occupied := q.occupied + 1, waiting := q.waiting ++ [job] }, w)
  | some reason =>
    let w := h.log .caller (some job) (.jobRejected reason q.occupied) w
    match h.reject .caller job reason w with
    | (none, w) => (.rejected, q, w)
    | (some fault, w) => (.broken fault, q, w)

/-- Whether nothing waits or runs. -/
def isIdle (q : Queue J R) : Bool := q.occupied == 0

/-- Whether the worker has come to its end. -/
def isTerminated (q : Queue J R) : Bool := q.state == .terminated

/-- Accept no more jobs. Those that wait will still run. -/
def shutDown (h : Handler J R W) (q : Queue J R) (w : W) : Queue J R × W :=
  if q.accepting then
    ({ q with
        accepting := false
        state := if q.state = .running then .shuttingDown else q.state },
      h.log .caller none (.queueShuttingDown q.occupied) w)
  else (q, w)

/-- Accept no more jobs and drop those that wait. The one that runs will end. -/
def shutDownNow (h : Handler J R W) (q : Queue J R) (w : W) : Queue J R × W :=
  shutDown h { q with cancelled := true } w

/-! ## Calls as data -/

/-- What a caller asks of a queue. -/
inductive Call (J : Type) where
  | submit (job : J)
  | askIdle
  | askTerminated
  | shutDown
  | shutDownNow
  deriving DecidableEq, Repr

/-- What a caller is told. -/
inductive Answer where
  | submitted (submission : Submission)
  | told (value : Bool)
  | done
  deriving DecidableEq, Repr

/-- Do what a caller asks. -/
def call (h : Handler J R W) (c : Call J) (q : Queue J R) (w : W) : Answer × Queue J R × W :=
  match c with
  | .submit job =>
    let (submission, q, w) := q.submit h job w
    (.submitted submission, q, w)
  | .askIdle => (.told q.isIdle, q, w)
  | .askTerminated => (.told q.isTerminated, q, w)
  | .shutDown => (.done, q.shutDown h w)
  | .shutDownNow => (.done, q.shutDownNow h w)

end Queue
end Courier
