import Courier.Proofs.Transport.Balance

/-!
# The calls made for a submission

`Record.calls` is the table of what a transport asks of its cache, its gate and its connection for
one submission, by what became of the submission. `calls_of_run` says that in every run these calls
were made for it, in this order, and no others.
-/

namespace Courier

/-- Whether something that happened is a call on the cache, the gate or the connection, or the
notification that goes before the gate is asked. -/
def Event.isCall : Event → Bool
  | .store .. | .discard _ | .askGate _ | .send _ | .markFlushed _ => true
  | .log _ | .setRetry .. | .setResult .. => false

/-- The calls made for a submission, the first one first. -/
def Journal.calls (journal : Journal) (n : SubmissionId) : List Event :=
  (Journal.effects journal n).filter Event.isCall

namespace Queue

variable {J R : Type}

/-- The jobs that a queue has: the one that the worker deals with, and those that wait. -/
def jobs (q : Queue J R) : List J :=
  match q.worker with
  | .received job | .running job _ | .returned job _ | .dropping job => job :: q.waiting
  | .ready | .stopped | .broken _ => q.waiting

end Queue

namespace Transport

open Collaborators

variable {ledger : Ledger} {q : Queue Task Reply}

/-! ## The table -/

/-- What a run asks its gate, if it comes that far, with the answer. A gate that breaks off is asked
like an open one. -/
def asking : Standing → List Event
  | .ended (.storeBroke _) | .ended (.flushBroke _) => []
  | .ended .gateClosed => [.askGate false]
  | .held _ | .ended (.gateBroke _) | .ended (.sendBroke _) | .ended (.refused _)
  | .ended (.failed _) | .ended (.delivered _) | .ended (.discardBroke _) => [.askGate true]

/-- The calls that a run makes for the envelope `left`. Under an envelope that is in the cache
already nothing is stored and nothing discarded. -/
def callsOfRun (left : Envelope) (hint : Option HintId) (can : Capabilities) (s : Standing) :
    List Event :=
  (if can.cached then [] else [.store left hint.isSome]) ++
    (if s.isStored then notifying can hint else []) ++
    asking s ++
    (if s.isSent then [.send left] else []) ++
    if s.isDelivered && ! can.cached then [.discard left] else []

/-- The calls for a submission, by what became of it. -/
def Record.calls (r : Record) : List Event :=
  match r.fate with
  | .dropped _ => if r.can.cached then [.discard r.envelope] else []
  | .passed left (.rejected ..) | .passed left (.cancelled _) =>
    if r.can.cached then [] else [.store left r.hint.isSome]
  | .passed _ .waiting | .passed _ .dropping => []
  | .passed left (.started s) => callsOfRun left r.hint r.can s

/-! ## From effects to calls -/

theorem calls_reporting (can : Capabilities) (hint : Option HintId) (value : Bool) :
    (reporting can hint value).filter Event.isCall = [] := by
  unfold reporting
  split
  · split <;> rfl
  · rfl

theorem calls_retrying (can : Capabilities) (hint : Option HintId) (value : Bool) :
    (retrying can hint value).filter Event.isCall = [] := by
  unfold retrying
  split
  · split <;> rfl
  · rfl

theorem calls_notifying (can : Capabilities) (hint : Option HintId) :
    (notifying can hint).filter Event.isCall = notifying can hint := by
  unfold notifying
  split
  · split <;> rfl
  · rfl

theorem calls_rejecting (t : Task) (can : Capabilities) (fault : Option Fault) :
    (rejecting t can fault).filter Event.isCall =
      if can.cached then [] else [.store t.envelope t.hint.isSome] := by
  unfold rejecting
  rw [List.filter_append]
  have hr : (if fault = none then reporting can t.hint false ++ retrying can t.hint true
      else []).filter Event.isCall = [] := by
    split
    · rw [List.filter_append, calls_reporting, calls_retrying, List.append_nil]
    · rfl
  rw [hr, List.append_nil]
  split <;> rfl

theorem calls_effects_task (r : Record) (n : SubmissionId) (left : Envelope) (s : Standing) :
    ((r.task n left).effects r.can s).filter Event.isCall = callsOfRun left r.hint r.can s := by
  have hs : (r.task n left).storing.filter Event.isCall =
      if r.can.cached then [] else [.store left r.hint.isSome] := by
    unfold Task.storing Record.task
    cases r.can.cached <;> rfl
  have hd : (r.task n left).discarding.filter Event.isCall =
      if r.can.cached then [] else [.discard left] := by
    unfold Task.discarding Record.task
    cases r.can.cached <;> rfl
  have ho : [Event.askGate true, .send left].filter Event.isCall = [.askGate true, .send left] := rfl
  have hh : (r.task n left).hint = r.hint := rfl
  have he : (r.task n left).envelope = left := rfl
  rcases s with reply | (fault | fault | fault | _ | fault | code | reason | code | fault) <;>
    simp only [Task.effects, Task.opening, Task.closing, Task.preparing, callsOfRun, asking, hh, he,
      List.filter_append, hs, hd, ho, calls_reporting, calls_retrying, calls_notifying] <;>
    cases r.can.cached <;> simp [Event.isCall, Standing.isStored, Standing.isSent, Standing.isDelivered]

/-- The calls among the effects of a record are those of the table. -/
theorem calls_effects (r : Record) (n : SubmissionId) :
    (r.effects n).filter Event.isCall = r.calls := by
  unfold Record.effects Record.calls
  cases hf : r.fate with
  | dropped fault =>
    simp only [List.filter_append, calls_reporting, calls_retrying, List.nil_append]
    split <;> rfl
  | passed left stage =>
    cases stage with
    | rejected reason fault => exact calls_rejecting (r.task n left) r.can fault
    | waiting => rfl
    | dropping => rfl
    | cancelled fault => exact calls_rejecting (r.task n left) r.can fault
    | started s => exact calls_effects_task r n left s

/-! ## Whole runs -/

/-- Every task in the queue is in the ledger. -/
theorem Placed.exists_stage (hp : Placed q ledger) {t : Task} (ht : t ∈ q.jobs) :
    ∃ stage, ledger.Has t stage := by
  have waits (h : t ∈ q.waiting) : ∃ stage, ledger.Has t stage :=
    ⟨_, (hp.waiting t).1 (List.mem_append_right _ h)⟩
  have hand (stage : Stage) (h : atHand q.worker = some (t, stage)) : ∃ stage, ledger.Has t stage :=
    ⟨stage, hp.has_atHand h⟩
  unfold Queue.jobs at ht
  split at ht
  next u hw =>
    rcases List.mem_cons.1 ht with rfl | ht
    · exact ⟨_, hp.has_received hw⟩
    · exact waits ht
  next u reply hw =>
    rcases List.mem_cons.1 ht with rfl | ht
    · exact hand _ (by rw [hw]; rfl)
    · exact waits ht
  next u fault hw =>
    rcases List.mem_cons.1 ht with rfl | ht
    · obtain ⟨ending, hh, -⟩ := hp.returned t fault hw
      exact ⟨_, hh⟩
    · exact waits ht
  next u hw =>
    rcases List.mem_cons.1 ht with rfl | ht
    · exact hand _ (by rw [hw]; rfl)
    · exact waits ht
  · exact waits ht
  · exact waits ht
  · exact waits ht

theorem Placed.not_mem_of_dropped (hp : Placed q ledger) {n : SubmissionId} {r : Record}
    {fault : Option Fault} (hr : ledger[n]? = some r) (hf : r.fate = .dropped fault) :
    ∀ t ∈ q.jobs, t.submission ≠ some n := by
  intro t ht hs
  obtain ⟨stage, m, r', hr', hf', htask⟩ := hp.exists_stage ht
  have hm : m = n := by
    rw [htask] at hs
    exact Option.some.inj hs
  rw [hm, hr] at hr'
  cases hr'
  rw [hf] at hf'
  cases hf'

/-- **Calls.** In every run of a transport the ledger has a record of every submission, about what was
submitted and what the limits left of it, and the calls made for the submission are those of the
table. What the limits dropped whole is never queued. -/
theorem calls_of_run {settings : TransportSettings} {limited : Bool} {w w' : Collaborators}
    {t : Transport} (hu : Unused w) (hs : start settings limited w = (.ok t, w'))
    (moves : List Move) :
    let s := Scene.run moves ⟨t, w', []⟩
    s.ledger.length = s.world.submissions ∧ Scene.Recorded moves ⟨t, w', []⟩ ∧
    ∀ (n : SubmissionId) (r : Record), s.ledger[n]? = some r →
      s.world.journal.calls n = r.calls ∧
      ∀ fault, r.fate = .dropped fault → ∀ t ∈ s.transport.queue.jobs, t.submission ≠ some n := by
  intro s
  have hb₀ := balanced_start hu hs
  have hb : s.Balanced := hb₀.run moves
  refine ⟨hb.booked.length, hb₀.recorded rfl moves, fun n r hr => ⟨?_, fun fault hf => ?_⟩⟩
  · unfold Journal.calls
    rw [hb.booked.effects n r hr, calls_effects]
  · exact hb.placed.not_mem_of_dropped hr hf

/-- An envelope that is delivered is stored before the gate is asked and discarded at the end. -/
theorem calls_of_delivery :
    let w := sampleWorld .none
    let e := sampleEnvelope "sample"
    (Scene.run [.send e none, .work, .work] ⟨⟨sampleSettings, false, Queue.create 2, false⟩,
      w.log here (.transportStarted 2 0), []⟩).world.journal.calls 0 =
        [.store e false, .askGate true, .send e, .discard e] :=
  let e := sampleEnvelope "sample"
  ((calls_of_run (unused_sampleWorld .none) (start_of_ne_zero (by decide) false _)
    [.send e none, .work, .work]).2.2 0
      ⟨e, none, {}, .passed e (.started (.ended (.delivered (some 200))))⟩ rfl).1

end Transport
end Courier
