import Courier.Proofs.Queue.Soundness
import Courier.Proofs.Task.Standing
import Courier.Transport.Basic

/-!
# The ledger of a transport

A run of a transport is a sequence of moves: calls of its owner, single actions of its worker, and
changes of the collaborators behind its back, in any order. The parts of a flush and of a close are
moves of their own, so the worker may act, and others may call, while somebody waits. A `Scene` keeps
a ledger besides: one record for every submission, with what was submitted and what became of it.
-/

namespace Courier.Transport

/-! ## Records -/

/-- What became of an envelope that passed the limits. -/
inductive Stage where
  /-- The queue refused it. Disposing of it may have broken off. -/
  | rejected (reason : RejectReason) (fault : Option Fault)
  /-- Accepted and not yet looked at. -/
  | waiting
  /-- The worker is about to dispose of it. -/
  | dropping
  /-- The worker disposed of it. That may have broken off. -/
  | cancelled (fault : Option Fault)
  /-- The worker started its task. -/
  | started (standing : Standing)
  deriving DecidableEq, Repr

/-- What became of a submission. -/
inductive Fate where
  /-- Nothing was left under the limits. Discarding the copy in the cache may have broken off. -/
  | dropped (fault : Option Fault)
  /-- The envelope `left` passed the limits. -/
  | passed (left : Envelope) (stage : Stage)
  deriving DecidableEq, Repr

/-- A submission: what was submitted, what its hint can do, and what became of it. -/
structure Record where
  envelope : Envelope
  hint : Option HintId
  can : Capabilities
  fate : Fate
  deriving DecidableEq, Repr

/-- The submissions so far, the first one first. -/
abbrev Ledger := List Record

/-- What disposing of a task does, perhaps with a fault in between. -/
def rejecting (t : Task) (can : Capabilities) (fault : Option Fault) : List Event :=
  (if can.cached then [] else [.store t.envelope t.hint.isSome]) ++
    if fault = none then
      Collaborators.reporting can t.hint false ++ Collaborators.retrying can t.hint true
    else []

/-- What was done for a task so far. -/
def Stage.effects (t : Task) (can : Capabilities) : Stage → List Event
  | .rejected _ fault | .cancelled fault => rejecting t can fault
  | .waiting | .dropping => []
  | .started standing => t.effects can standing

namespace Record

/-- The task of the submission with the number `n`. -/
def task (r : Record) (n : SubmissionId) (left : Envelope) : Task :=
  ⟨left, r.hint, ! r.can.cached, some n⟩

/-- What the limits left of the envelope, if they left something. -/
def left? (r : Record) : Option Envelope :=
  match r.fate with
  | .dropped _ => none
  | .passed left _ => some left

/-- What was done for the submission so far, apart from log lines. -/
def effects (r : Record) (n : SubmissionId) : List Event :=
  match r.fate with
  | .dropped _ =>
    Collaborators.reporting r.can r.hint false ++ Collaborators.retrying r.can r.hint false ++
      if r.can.cached then [.discard r.envelope] else []
  | .passed left stage => stage.effects (r.task n left) r.can

/-- What was done for the submission of a task is what was done for the task. -/
theorem effects_of_fate {r : Record} {n : SubmissionId} {t : Task} {stage : Stage}
    (hf : r.fate = .passed t.envelope stage) (ht : t = r.task n t.envelope) :
    r.effects n = stage.effects t r.can := by
  unfold effects
  rw [hf]
  show stage.effects (r.task n t.envelope) r.can = _
  rw [← ht]

end Record

namespace Ledger

/-- The stage of a task is now another one. -/
def enter (ledger : Ledger) (t : Task) (stage : Stage) : Ledger :=
  match t.submission with
  | some n => ledger.modify n fun r => { r with fate := .passed t.envelope stage }
  | none => ledger

/-- The ledger says that a task is at a stage. -/
def Has (ledger : Ledger) (t : Task) (stage : Stage) : Prop :=
  ∃ (n : SubmissionId) (r : Record),
    ledger[n]? = some r ∧ r.fate = .passed t.envelope stage ∧ t = r.task n t.envelope

end Ledger

/-! ## Moves -/

/-- What happens to collaborators behind the back of a transport. -/
inductive Change where
  | setGate (connected : Bool)
  | replaceGate (gate : Gate)
  | pushReply (reply : Reply)
  | openLatch (latch : String)
  | changeLimits (change : RateLimits.Change)
  | sleep (nanos : Nat)
  /-- From now on a recording cache breaks off other calls. -/
  | breakCache (storeFault discardFault : Envelope → Option Fault)
  /-- From now on the notification of a hint breaks off, or does so no more. -/
  | breakHint (hint : HintId) (fault : Option Fault)

/-- The collaborators after a change. -/
def Change.apply (c : Change) (w : Collaborators) : Collaborators :=
  match c with
  | .setGate connected => w.setGate connected
  | .replaceGate gate => { w with gate }
  | .pushReply reply => w.pushReply reply
  | .openLatch latch => w.openLatch latch
  | .changeLimits change => w.changeLimits change
  | .sleep nanos => w.sleep nanos
  | .breakCache storeFault discardFault =>
    match w.cache with
    | .recording _ _ => { w with cache := .recording storeFault discardFault }
    | .none | .disk _ => w
  | .breakHint hint fault =>
    { w with hints := w.hints.modify hint fun h => { h with flushFault := fault } }

/-- One move of a run. -/
inductive Move where
  | send (envelope : Envelope) (hint : Option HintId)
  | beginFlush (timeoutMs : Nat)
  | endFlush (timeoutMs : Nat)
  | beginClose
  | endClose
  /-- The worker acts, if it can. -/
  | work
  | change (c : Change)

/-- What a move submits. -/
def Move.sends : Move → List (Envelope × Option HintId)
  | .send e hint => [(e, hint)]
  | .beginFlush _ | .endFlush _ | .beginClose | .endClose | .work | .change _ => []

/-- A transport, its collaborators, and what became of the submissions so far. -/
structure Scene where
  transport : Transport
  world : Collaborators
  ledger : Ledger

/-- The fault by which a submission broke off. -/
def SendResult.fault? : SendResult → Option Fault
  | .broken fault => some fault
  | .handedOver | .dropped | .rejected => none

/-- What is left of an envelope under the limits that hold for the transport. -/
def left? (t : Transport) (e : Envelope) (w : Collaborators) : Option Envelope :=
  if t.limited then (w.limits.filter w.clock e).1 else some e

/-- The record is about an envelope that was submitted in the scene `s`: it has what the hint could do
then, and what the limits left then. -/
structure Record.From (r : Record) (s : Scene) (e : Envelope) (hint : Option HintId) : Prop where
  submitted : (r.envelope, r.hint) = (e, hint)
  can : r.can = s.world.capabilities hint
  left : r.left? = s.transport.left? e s.world

namespace Scene

/-- The fate of an envelope that is submitted now, with the result that its caller gets. -/
def fateOf (s : Scene) (e : Envelope) (result : SendResult) : Fate :=
  match s.transport.left? e s.world, s.transport.queue.refusal? with
  | none, _ => .dropped result.fault?
  | some left, none => .passed left .waiting
  | some left, some reason => .passed left (.rejected reason result.fault?)

/-- Submit an envelope. -/
def send (s : Scene) (e : Envelope) (hint : Option HintId) : Scene :=
  let (result, transport, world) := s.transport.send e hint s.world
  ⟨transport, world,
    s.ledger ++ [⟨e, hint, s.world.capabilities hint, s.fateOf e result⟩]⟩

/-- The ledger after the worker acted. -/
def noted (s : Scene) : Ledger :=
  match s.transport.queue.worker with
  | .received t =>
    s.ledger.enter t
      (if s.transport.queue.cancelled then .dropping else .started (t.started s.world))
  | .running t reply =>
    s.ledger.enter t (.started (t.arrived s.world (reply.behind s.world.latches)))
  | .dropping t => s.ledger.enter t (.cancelled (reject .worker t .cancelled s.world).1)
  | .ready | .returned .. | .stopped | .broken _ => s.ledger

section Noted

variable {s : Scene} {t : Task}

@[simp]
theorem noted_of_ready (h : s.transport.queue.worker = .ready) : s.noted = s.ledger := by
  unfold noted
  rw [h]

@[simp]
theorem noted_of_received_of_cancelled (h : s.transport.queue.worker = .received t)
    (hc : s.transport.queue.cancelled = true) : s.noted = s.ledger.enter t .dropping := by
  unfold noted
  simp only [h, if_pos hc]

@[simp]
theorem noted_of_received_of_kept (h : s.transport.queue.worker = .received t)
    (hc : s.transport.queue.cancelled = false) :
    s.noted = s.ledger.enter t (.started (t.started s.world)) := by
  unfold noted
  simp only [h, hc, Bool.false_eq_true, if_false]

@[simp]
theorem noted_of_running {reply : Reply} (h : s.transport.queue.worker = .running t reply) :
    s.noted =
      s.ledger.enter t (.started (t.arrived s.world (reply.behind s.world.latches))) := by
  unfold noted
  rw [h]

@[simp]
theorem noted_of_returned {fault : Option Fault} (h : s.transport.queue.worker = .returned t fault) :
    s.noted = s.ledger := by
  unfold noted
  rw [h]

@[simp]
theorem noted_of_dropping (h : s.transport.queue.worker = .dropping t) :
    s.noted = s.ledger.enter t (.cancelled (reject .worker t .cancelled s.world).1) := by
  unfold noted
  rw [h]

end Noted

/-- Let the worker act, if it can. -/
def work (s : Scene) : Scene :=
  match s.transport.queue.step handler s.world with
  | none => s
  | some (queue, world) => ⟨{ s.transport with queue }, world, s.noted⟩

theorem work_of_step_eq_none {s : Scene}
    (h : s.transport.queue.step handler s.world = none) : s.work = s := by
  unfold work
  rw [h]

theorem work_of_step {s : Scene} {queue : Queue Task Reply} {world : Collaborators}
    (h : s.transport.queue.step handler s.world = some (queue, world)) :
    s.work = ⟨{ s.transport with queue }, world, s.noted⟩ := by
  unfold work
  rw [h]

/-- Make a move. A transport is closed once. -/
def move (s : Scene) : Move → Scene
  | .send e hint => s.send e hint
  | .beginFlush timeoutMs =>
    { s with world := s.world.log here (.flushing timeoutMs s.transport.pending) }
  | .endFlush timeoutMs => { s with world := (s.transport.endFlush timeoutMs s.world).2 }
  | .beginClose =>
    if s.transport.closed then s
    else
      let (transport, world) := s.transport.beginClose s.world
      { s with transport, world }
  | .endClose =>
    if s.transport.closed then
      let (transport, world) := s.transport.endClose s.world
      { s with transport, world }
    else s
  | .work => s.work
  | .change c => { s with world := c.apply s.world }

theorem move_beginClose {s : Scene} (h : ¬ s.transport.closed = true) :
    s.move .beginClose = ⟨(s.transport.beginClose s.world).1, (s.transport.beginClose s.world).2,
      s.ledger⟩ := if_neg h

theorem move_beginClose_of_closed {s : Scene} (h : s.transport.closed = true) :
    s.move .beginClose = s := if_pos h

theorem move_endClose {s : Scene} (h : s.transport.closed = true) :
    s.move .endClose = ⟨(s.transport.endClose s.world).1, (s.transport.endClose s.world).2,
      s.ledger⟩ := if_pos h

theorem move_endClose_of_not_closed {s : Scene} (h : ¬ s.transport.closed = true) :
    s.move .endClose = s := if_neg h

/-- Make moves one after the other. -/
def run (moves : List Move) (s : Scene) : Scene := moves.foldl move s

theorem run_append (first more : List Move) (s : Scene) :
    run (first ++ more) s = run more (run first s) := List.foldl_append

/-- The worker waits, or is at its end. -/
def Settled (s : Scene) : Prop := s.transport.queue.step handler s.world = none

/-- What every move keeps holds after every run. -/
theorem run_induction {P : Scene → Prop} (hm : ∀ s m, P s → P (s.move m)) {s : Scene} (hs : P s)
    (moves : List Move) : P (run moves s) := by
  induction moves generalizing s with
  | nil => exact hs
  | cons m more ih => exact ih (hm s m hs)

/-- The moves `moves` from the scene `s₀` leave a record of whatever they submitted, at its place in
order. -/
def Recorded (moves : List Move) (s₀ : Scene) : Prop :=
  ∀ before e hint after, moves = before ++ .send e hint :: after →
    ∃ r, (run moves s₀).ledger[(before.flatMap Move.sends).length]? = some r ∧
      r.From (run before s₀) e hint

/-! ## What was submitted -/

/-- What was submitted so far, the first thing first. -/
def submitted (s : Scene) : List (Envelope × Option HintId) :=
  s.ledger.map fun r => (r.envelope, r.hint)

theorem map_enter {α : Type} {f : Record → α} (hf : ∀ r fate, f { r with fate } = f r)
    (ledger : Ledger) (t : Task) (stage : Stage) : (ledger.enter t stage).map f = ledger.map f := by
  unfold Ledger.enter
  split
  next n _ =>
    refine List.ext_getElem? fun m => ?_
    rw [List.getElem?_map, List.getElem?_map]
    by_cases h : n = m
    · subst h
      rw [List.getElem?_modify_eq]
      cases ledger[n]? with
      | none => rfl
      | some r => exact congrArg some (hf r _)
    · rw [List.getElem?_modify_ne _ _ h]
  · rfl

theorem submitted_work (s : Scene) : s.work.submitted = s.submitted := by
  unfold work
  split
  · rfl
  · show s.noted.map _ = s.ledger.map _
    unfold noted
    split
    iterate 3 exact map_enter (fun _ _ => rfl) _ _ _
    iterate 4 rfl

theorem submitted_move (s : Scene) (m : Move) : (s.move m).submitted = s.submitted ++ m.sends := by
  cases m with
  | send e hint => exact List.map_append
  | beginFlush timeoutMs => exact (List.append_nil _).symm
  | endFlush timeoutMs => exact (List.append_nil _).symm
  | beginClose =>
    show (if s.transport.closed then s else _).submitted = s.submitted ++ []
    rw [List.append_nil]
    split <;> rfl
  | endClose =>
    show (if s.transport.closed then _ else s).submitted = s.submitted ++ []
    rw [List.append_nil]
    split <;> rfl
  | work => exact s.submitted_work.trans (List.append_nil _).symm
  | change c => exact (List.append_nil _).symm

/-- The ledger has a record of everything that was submitted, in order. -/
theorem submitted_run (moves : List Move) (s : Scene) :
    (run moves s).submitted = s.submitted ++ moves.flatMap Move.sends := by
  induction moves generalizing s with
  | nil => exact (List.append_nil _).symm
  | cons m more ih =>
    show (run more (s.move m)).submitted = _
    rw [ih, submitted_move, List.append_assoc, List.flatMap_cons]

end Scene

/-- A world in which nothing was submitted yet. -/
structure Unused (w : Collaborators) : Prop where
  submissions : w.submissions = 0
  journal : ∀ l ∈ w.journal, l.place.submission = none

theorem start_of_ne_zero {settings : TransportSettings} (h : settings.maxQueueSize ≠ 0)
    (limited : Bool) (w : Collaborators) :
    start settings limited w =
      (.ok ⟨settings, limited, Queue.create settings.maxQueueSize, false⟩,
        w.log here (.transportStarted settings.maxQueueSize settings.closeGraceSecs)) := by
  unfold start TransportSettings.validate
  rw [if_neg h]

/-! ## Samples -/

/-- A world in which the gate is open, the server takes everything, and nothing was ever done. -/
def sampleWorld (cache : Cache) : Collaborators where
  cache
  files := ⟨[], [], 0⟩
  limits := .empty
  clock := 0
  gate := .always
  connection := ⟨[], .answer (.accepted 200)⟩
  latches := []
  hints := []
  keys := ⟨0, 0, 0⟩
  submissions := 0
  journal := []

theorem unused_sampleWorld (cache : Cache) : Unused (sampleWorld cache) :=
  ⟨rfl, fun _ h => by cases h⟩

def sampleEnvelope (key : String) : Envelope := ⟨key, ⟨none, none⟩, []⟩

/-- Two slots, and no patience. -/
def sampleSettings : TransportSettings := ⟨2, 0, 0⟩

/-- A world with two hints that can be told everything. -/
def hintedWorld : Collaborators := { sampleWorld .none with hints := [Hint.flush, Hint.flush] }

/-- One envelope is delivered, and another one waits when the time of a close is up. -/
def hintedMoves : List Move :=
  [.send (sampleEnvelope "first") (some 0), .work, .work, .work,
    .send (sampleEnvelope "second") (some 1), .beginClose, .endClose, .work, .work, .work]

def hintedScene : Scene :=
  .run hintedMoves ⟨⟨sampleSettings, false, Queue.create 2, false⟩,
    hintedWorld.log here (.transportStarted 2 0), []⟩

end Courier.Transport
