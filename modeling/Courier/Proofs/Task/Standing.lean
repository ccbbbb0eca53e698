import Courier.Proofs.Growth
import Courier.Task

/-!
# The runs of tasks

`Standing` says how far the run of a task came: its reply is held back, or it ended in one of nine
ways. `Task.started` and `Task.arrived` tell the standing from what the collaborators are about to
answer, and `Task.effects` lists everything that a run did by then. `Task.start_spec` and
`Task.resume_spec` say that a run comes to that standing and has these effects.
-/

namespace Courier

/-! ## Replies -/

/-- Whether a reply says that the server took the envelope. -/
def Reply.isSuccess : Reply → Bool
  | .answer outcome => outcome.success
  | .failure _ | .fault _ | .held .. => false

/-- Whether a reply says that another attempt is worthwhile. -/
def Reply.isFailure : Reply → Bool
  | .failure _ => true
  | .answer _ | .fault _ | .held .. => false

/-- Whether a latch holds a reply back, open or not. -/
def Reply.isHeld : Reply → Bool
  | .held .. => true
  | .answer _ | .failure _ | .fault _ => false

theorem Reply.behind_of_not_isHeld {reply : Reply} (h : reply.isHeld = false) (opened : Latches) :
    reply.behind opened = reply := by
  cases reply with
  | held latch reply => cases h
  | answer | failure | fault => rfl

/-! ## Standings -/

/-- How the run of a task ended. -/
inductive Ending where
  | storeBroke (fault : Fault)
  | flushBroke (fault : Fault)
  | gateBroke (fault : Fault)
  | gateClosed
  | sendBroke (fault : Fault)
  | refused (code : Option Nat)
  | failed (reason : String)
  | delivered (code : Option Nat)
  /-- The envelope was delivered, and discarding it broke off. -/
  | discardBroke (fault : Fault)
  deriving DecidableEq, Repr

/-- The fault by which a run broke off. -/
def Ending.fault? : Ending → Option Fault
  | .storeBroke fault | .flushBroke fault | .gateBroke fault | .sendBroke fault
  | .discardBroke fault => some fault
  | .gateClosed | .refused _ | .failed _ | .delivered _ => none

/-- How far the run of a task came. -/
inductive Standing where
  /-- The envelope was sent, and its reply is held back. -/
  | held (reply : Reply)
  | ended (ending : Ending)
  deriving DecidableEq, Repr

namespace Standing

/-- What the queue is told. -/
def progress : Standing → Progress Reply
  | .held reply => .waiting reply
  | .ended ending => .done ending.fault?

/-- Whether storing the envelope did not break off. -/
def isStored : Standing → Bool
  | .ended (.storeBroke _) => false
  | _ => true

/-- Whether the envelope was given to the connection. -/
def isSent : Standing → Bool
  | .held _ => true
  | .ended (.sendBroke _) | .ended (.refused _) | .ended (.failed _) | .ended (.delivered _)
  | .ended (.discardBroke _) => true
  | .ended (.storeBroke _) | .ended (.flushBroke _) | .ended (.gateBroke _)
  | .ended .gateClosed => false

/-- Whether the server took the envelope. -/
def isDelivered : Standing → Bool
  | .ended (.delivered _) | .ended (.discardBroke _) => true
  | _ => false

end Standing

namespace Task

variable {t : Task} {p : Place} {w w' : Collaborators}

/-! ## The standing of a run -/

/-- The standing of a run to which a reply came. -/
def arrived (t : Task) (w : Collaborators) : Reply → Standing
  | .held latch reply => .held (.held latch reply)
  | .fault fault => .ended (.sendBroke fault)
  | .failure reason => .ended (.failed reason)
  | .answer outcome =>
    if outcome.success then
      match if t.kept then w.cache.discardFault? t.envelope else none with
      | some fault => .ended (.discardBroke fault)
      | none => .ended (.delivered outcome.code)
    else .ended (.refused outcome.code)

/-- The standing of a run that sends the envelope. -/
def sent (t : Task) (w : Collaborators) : Standing :=
  t.arrived w (w.connection.take.1.behind w.latches)

/-- The standing of a run that asks the gate. -/
def asked (t : Task) (w : Collaborators) : Standing :=
  match w.gate.answer with
  | .error fault => .ended (.gateBroke fault)
  | .ok true => t.sent w
  | .ok false => .ended .gateClosed

/-- The fault by which the notification of the task's hint breaks off. -/
def flushFault? (t : Task) (w : Collaborators) : Option Fault :=
  match t.hint with
  | some id => if (w.capabilities t.hint).flush then w.flushFault? id else none
  | none => none

/-- The standing of a run that notifies its hint. -/
def notified (t : Task) (w : Collaborators) : Standing :=
  match t.flushFault? w with
  | some fault => .ended (.flushBroke fault)
  | none => t.asked w

/-- The standing of a run that starts. -/
def started (t : Task) (w : Collaborators) : Standing :=
  match if t.kept then w.cache.storeFault? t.envelope else none with
  | some fault => .ended (.storeBroke fault)
  | none => t.notified w

theorem arrived_congr (h : w'.surroundings = w.surroundings) (t : Task) (reply : Reply) :
    t.arrived w' reply = t.arrived w reply := by
  cases reply <;> simp only [arrived, Collaborators.cache_congr h]

theorem isSent_arrived (t : Task) (w : Collaborators) (reply : Reply) :
    (t.arrived w reply).isSent = true := by
  cases reply with
  | answer outcome =>
    unfold arrived
    dsimp only
    split
    · split <;> rfl
    · rfl
  | failure reason => rfl
  | fault fault => rfl
  | held latch reply => rfl

theorem exists_ending {reply : Reply} (hn : ∀ latch rest, reply ≠ .held latch rest) (t : Task)
    (w : Collaborators) : ∃ ending, t.arrived w reply = .ended ending := by
  cases reply with
  | answer outcome =>
    unfold arrived
    dsimp only
    split
    · split <;> exact ⟨_, rfl⟩
    · exact ⟨_, rfl⟩
  | failure reason => exact ⟨_, rfl⟩
  | fault fault => exact ⟨_, rfl⟩
  | held latch reply => exact absurd rfl (hn latch reply)

theorem sent_congr (h : w'.surroundings = w.surroundings) (hc : w'.connection = w.connection)
    (t : Task) : t.sent w' = t.sent w := by
  simp only [sent, Collaborators.latches_congr h, hc, arrived_congr h]

theorem asked_congr (h : w'.surroundings = w.surroundings) (hc : w'.connection = w.connection)
    (t : Task) : t.asked w' = t.asked w := by
  simp only [asked, Collaborators.gate_congr h, sent_congr h hc]

theorem flushFault?_congr (h : w'.surroundings = w.surroundings) (t : Task) :
    t.flushFault? w' = t.flushFault? w := by
  simp only [flushFault?, Collaborators.capabilities_congr h, Collaborators.flushFault?_congr h]

theorem notified_congr (h : w'.surroundings = w.surroundings) (hc : w'.connection = w.connection)
    (t : Task) : t.notified w' = t.notified w := by
  simp only [notified, flushFault?_congr h, asked_congr h hc]

/-! ## The effects of a run -/

/-- Storing the envelope, unless it is in the cache already. -/
def storing (t : Task) : List Event :=
  if t.kept then [.store t.envelope t.hint.isSome] else []

/-- Discarding the envelope, unless the task leaves it in the cache. -/
def discarding (t : Task) : List Event := if t.kept then [.discard t.envelope] else []

/-- What a run does before it asks the gate. -/
def preparing (t : Task) (can : Capabilities) : List Event :=
  t.storing ++ Collaborators.notifying can t.hint

/-- What a run does up to the reply. -/
def opening (t : Task) (can : Capabilities) : Standing → List Event
  | .ended (.storeBroke _) => t.storing
  | .ended (.flushBroke _) => t.preparing can
  | .ended (.gateBroke _) => t.preparing can ++ [.askGate true]
  | .ended .gateClosed => t.preparing can ++ [.askGate false]
  | .held _ | .ended (.sendBroke _) | .ended (.refused _) | .ended (.failed _)
  | .ended (.delivered _) | .ended (.discardBroke _) =>
    t.preparing can ++ [.askGate true, .send t.envelope]

/-- What a run does with the reply, or when it does not come that far. -/
def closing (t : Task) (can : Capabilities) : Standing → List Event
  | .held _ => []
  | .ended .gateClosed | .ended (.failed _) =>
    Collaborators.retrying can t.hint true ++ Collaborators.reporting can t.hint false
  | .ended (.delivered _) => t.discarding ++ Collaborators.reporting can t.hint true
  | .ended (.discardBroke _) => t.discarding ++ Collaborators.reporting can t.hint false
  | .ended (.storeBroke _) | .ended (.flushBroke _) | .ended (.gateBroke _)
  | .ended (.sendBroke _) | .ended (.refused _) => Collaborators.reporting can t.hint false

/-- What a run did so far. -/
def effects (t : Task) (can : Capabilities) (s : Standing) : List Event :=
  t.opening can s ++ t.closing can s

theorem mem_discarding {t : Task} {e : Event} (he : e ∈ t.discarding) :
    e = .discard t.envelope := by
  unfold discarding at he
  split at he
  · exact List.mem_singleton.1 he
  · cases he

theorem mem_preparing {t : Task} {can : Capabilities} {e : Event} (he : e ∈ t.preparing can) :
    e = .store t.envelope t.hint.isSome ∨ ∃ id, t.hint = some id ∧ e = .markFlushed id := by
  rcases List.mem_append.1 he with he | he
  · unfold storing at he
    split at he
    · exact .inl (List.mem_singleton.1 he)
    · cases he
  · exact .inr (Collaborators.mem_notifying he)

/-- Whatever a run does up to the reply is a call on its collaborators, or notifies its hint. -/
theorem mem_opening {t : Task} {can : Capabilities} {s : Standing} {e : Event}
    (he : e ∈ t.opening can s) :
    (e = .store t.envelope t.hint.isSome ∨ ∃ id, t.hint = some id ∧ e = .markFlushed id) ∨
      (∃ connected, e = .askGate connected) ∨ e = .send t.envelope := by
  unfold opening at he
  split at he
  · have hp : e ∈ t.preparing can := List.mem_append_left _ he
    exact .inl (mem_preparing hp)
  · exact .inl (mem_preparing he)
  iterate 2
    exact (List.mem_append.1 he).imp mem_preparing fun h => .inl ⟨_, List.mem_singleton.1 h⟩
  iterate 6
    refine (List.mem_append.1 he).imp mem_preparing fun h => ?_
    rcases List.mem_cons.1 h with rfl | h
    · exact .inl ⟨_, rfl⟩
    · exact .inr (List.mem_singleton.1 h)

/-- Once a reply came, what went before was done in full. -/
theorem opening_arrived (t : Task) (can : Capabilities) (w : Collaborators) (reply : Reply) :
    t.opening can (t.arrived w reply) =
      t.preparing can ++ [.askGate true, .send t.envelope] := by
  cases reply with
  | answer outcome =>
    show t.opening can (if outcome.success then _ else _) = _
    split
    · split <;> rfl
    · rfl
  | failure reason => rfl
  | fault fault => rfl
  | held latch reply => rfl

theorem effects_arrived (t : Task) (can : Capabilities) (w : Collaborators) (held reply : Reply) :
    t.effects can (t.arrived w reply) =
      t.effects can (.held held) ++ t.closing can (t.arrived w reply) := by
  rw [effects, opening_arrived]
  simp [effects, opening, closing]

/-! ## The ends of a run -/

open Collaborators

theorem grows_report (t : Task) (p : Place) (success : Bool) (w : Collaborators) :
    Grows p (reporting (w.capabilities t.hint) t.hint success) w (t.report p success w) := by
  unfold report
  by_cases hr : (w.capabilities t.hint).result = true
  · rw [if_pos hr]
    have g := grows_log p (.resultReported t.label success) w
    have g' := grows_signalResult p t.hint success (w.log p (.resultReported t.label success))
    rw [capabilities_congr g.surroundings] at g'
    exact g.trans g'
  · rw [if_neg hr]
    refine (Grows.refl p w).of_eq ?_
    unfold reporting
    split
    · rw [if_neg hr]
    · rfl

theorem grows_breakOff (t : Task) (p : Place) (fault : Fault) (w : Collaborators) :
    Grows p (reporting (w.capabilities t.hint) t.hint false) w (t.breakOff p fault w).2 := by
  have g := grows_log p (.submissionFaulted t.label) w
  have g' := grows_report t p false (w.log p (.submissionFaulted t.label))
  rw [capabilities_congr g.surroundings] at g'
  exact g.trans g'

theorem grows_succeed (t : Task) (p : Place) (code : Option Nat) (w : Collaborators) :
    Grows p (reporting (w.capabilities t.hint) t.hint true) w (t.succeed p code w).2 := by
  have g := grows_log p (.envelopeDelivered t.label code) w
  have g' := grows_report t p true (w.log p (.envelopeDelivered t.label code))
  rw [capabilities_congr g.surroundings] at g'
  exact g.trans g'

theorem grows_fail (t : Task) (p : Place) (error : SendError) (w : Collaborators) :
    Grows p ((if error.isRetryable then retrying (w.capabilities t.hint) t.hint true else []) ++
      reporting (w.capabilities t.hint) t.hint false) w (t.fail p error w).2 := by
  have gl := grows_log p (t.errorNotice error) w
  have gs : Grows p (if error.isRetryable then retrying (w.capabilities t.hint) t.hint true else [])
      w (if error.isRetryable then (w.log p (t.errorNotice error)).signalRetry p t.hint true
        else w.log p (t.errorNotice error)) := by
    split
    · have g := grows_signalRetry p t.hint true (w.log p (t.errorNotice error))
      rw [capabilities_congr gl.surroundings] at g
      exact gl.trans g
    · exact gl
  have gr := grows_report t p false (if error.isRetryable then
    (w.log p (t.errorNotice error)).signalRetry p t.hint true else w.log p (t.errorNotice error))
  rw [capabilities_congr gs.surroundings] at gr
  exact gs.trans gr

/-! ## The parts of a run -/

/-- A run comes to a standing, with some effects on the way. -/
structure Comes (p : Place) (s : Standing) (u : List Event) (w : Collaborators)
    (r : Progress Reply × Collaborators) : Prop where
  progress : r.1 = s.progress
  grows : Grows p u w r.2

theorem receive_spec (t : Task) (p : Place) (reply : Reply) (w : Collaborators) :
    Comes p (t.arrived w reply) (t.closing (w.capabilities t.hint) (t.arrived w reply)) w
      (t.receive p reply w) := by
  cases reply with
  | held latch reply => exact ⟨rfl, .refl p w⟩
  | fault fault => exact ⟨rfl, grows_breakOff t p fault w⟩
  | failure reason => exact ⟨rfl, grows_fail t p (.exchange reason) w⟩
  | answer outcome =>
    unfold receive arrived
    by_cases ho : outcome.success = true
    · simp only [if_pos ho]
      by_cases hk : t.kept = true
      · simp only [if_pos hk]
        have g := grows_discard p t.envelope w
        have hf := fst_discard p t.envelope w
        rcases hd : w.discard p t.envelope with ⟨_ | fault, w₁⟩
        · rw [hd] at g hf
          rw [← hf]
          have g' := grows_succeed t p outcome.code w₁
          rw [capabilities_congr g.surroundings] at g'
          exact ⟨rfl, (g.trans g').of_eq (by simp [closing, discarding, hk])⟩
        · rw [hd] at g hf
          rw [← hf]
          have g' := grows_breakOff t p fault w₁
          rw [capabilities_congr g.surroundings] at g'
          exact ⟨rfl, (g.trans g').of_eq (by simp [closing, discarding, hk])⟩
      · simp only [if_neg hk]
        exact ⟨rfl, (grows_succeed t p outcome.code w).of_eq (by simp [closing, discarding, hk])⟩
    · simp only [if_neg ho]
      exact ⟨rfl, grows_fail t p (.rejected outcome.code) w⟩

/-- A reply that is not held back ends a run, also where only the surroundings are as they were. -/
theorem exists_ending_receive {reply : Reply} (hn : ∀ latch rest, reply ≠ .held latch rest) (t : Task)
    (p : Place) (h : w'.surroundings = w.surroundings) :
    ∃ ending, t.arrived w reply = .ended ending ∧ (t.receive p reply w').1 = .done ending.fault? := by
  obtain ⟨ending, he⟩ := exists_ending hn t w
  refine ⟨ending, he, ?_⟩
  rw [(t.receive_spec p reply w').progress, arrived_congr h, he]
  rfl

theorem send_spec (t : Task) (p : Place) (w : Collaborators) :
    Comes p (t.sent w) (.send t.envelope :: t.closing (w.capabilities t.hint) (t.sent w)) w
      (t.send p w) := by
  have g := grows_send p t.envelope w
  have c := receive_spec t p (w.connection.take.1.behind w.latches) (w.send p t.envelope).2
  rw [arrived_congr g.surroundings, capabilities_congr g.surroundings] at c
  have hr : t.send p w =
      t.receive p (w.connection.take.1.behind w.latches) (w.send p t.envelope).2 := by
    unfold send
    rw [← latches_congr g.surroundings]
    rfl
  rw [hr]
  exact ⟨c.progress, g.trans c.grows⟩

/-- A run that asks the gate completes what a run does. -/
theorem askGate_spec (t : Task) (p : Place) (w : Collaborators) :
    ∃ u, Comes p (t.asked w) u w (t.askGate p w) ∧
      t.preparing (w.capabilities t.hint) ++ u =
        t.effects (w.capabilities t.hint) (t.asked w) := by
  have g := grows_askGate p w
  have ha := fst_askGate p w
  have hc := capabilities_congr g.surroundings t.hint
  unfold askGate asked
  rcases hw : w.askGate p with ⟨fault | _ | _, w₁⟩
  · rw [hw] at g ha hc
    rw [← ha]
    have g' := grows_breakOff t p fault w₁
    rw [hc] at g'
    refine ⟨_, ⟨rfl, g.trans g'⟩, ?_⟩
    have hg : w.gate.isConnected = true := by
      cases hg : w.gate <;> simp_all [Gate.answer, Gate.fault?, Gate.isConnected]
    simp [effects, opening, closing, hg]
  · rw [hw] at g ha hc
    rw [← ha]
    have g' := grows_fail t p .disconnected w₁
    rw [hc] at g'
    refine ⟨_, ⟨rfl, g.trans g'⟩, ?_⟩
    have hg : w.gate.isConnected = false := by
      cases hg : w.gate <;> simp_all [Gate.answer, Gate.fault?, Gate.isConnected]
    simp [effects, opening, closing, hg, SendError.isRetryable]
  · rw [hw] at g ha hc
    rw [← ha]
    have c := send_spec t p w₁
    rw [sent_congr g.surroundings g.connection, hc] at c
    refine ⟨_, ⟨c.progress, g.trans c.grows⟩, ?_⟩
    have hg : w.gate.isConnected = true := by
      cases hg : w.gate <;> simp_all [Gate.answer, Gate.fault?, Gate.isConnected]
    rw [effects, sent, opening_arrived, hg]
    simp

/-- A run that notifies its hint completes what a run does. -/
theorem notify_spec (t : Task) (p : Place) (w : Collaborators) :
    ∃ u, Comes p (t.notified w) u w (t.notify p w) ∧
      t.storing ++ u = t.effects (w.capabilities t.hint) (t.notified w) := by
  -- without a notification the gate is asked at once
  have silent (hn : notifying (w.capabilities t.hint) t.hint = [])
      (hf : t.flushFault? w = none) (he : t.notify p w = t.askGate p w) :
      ∃ u, Comes p (t.notified w) u w (t.notify p w) ∧
        t.storing ++ u = t.effects (w.capabilities t.hint) (t.notified w) := by
    obtain ⟨u, c, hu⟩ := askGate_spec t p w
    rw [preparing, hn, List.append_nil] at hu
    rw [he, notified, hf]
    exact ⟨u, c, hu⟩
  cases hh : t.hint with
  | none =>
    rw [hh] at silent
    exact silent rfl (by simp [flushFault?, hh]) (by simp [notify, hh])
  | some id =>
    rw [hh] at silent
    by_cases hf : (w.capabilities (some id)).flush = true
    · have g := grows_markFlushed p hf
      have hm := fst_markFlushed p id w
      have hc := capabilities_congr g.surroundings t.hint
      have ht : t.flushFault? w = w.flushFault? id := by simp [flushFault?, hh, hf]
      have hn : notifying (w.capabilities (some id)) (some id) = [.markFlushed id] := if_pos hf
      unfold notify notified
      simp only [hh, if_pos hf, ht]
      rcases hw : w.markFlushed p id with ⟨_ | fault, w₁⟩
      · rw [hw] at g hm hc
        rw [← hm]
        have g := g.log (.flushNotified t.label)
        have hc := capabilities_congr g.surroundings t.hint
        obtain ⟨u, c, hu⟩ := askGate_spec t p (w₁.log p (.flushNotified t.label))
        rw [asked_congr g.surroundings g.connection] at c hu
        rw [hc, hh, preparing, hh, hn] at hu
        exact ⟨_, ⟨c.progress, g.trans c.grows⟩, by rw [← hu]; simp⟩
      · rw [hw] at g hm hc
        rw [← hm]
        have g' := grows_breakOff t p fault w₁
        rw [hc, hh] at g'
        refine ⟨_, ⟨rfl, g.trans g'⟩, ?_⟩
        simp only [effects, opening, closing, preparing, hn, hh, List.append_assoc]
    · exact silent (by simp [notifying, hf]) (by simp [flushFault?, hh, hf])
        (by simp [notify, hh, hf])

/-- A run comes to its standing, and does all that belongs to it. -/
theorem start_spec (t : Task) (side : Side) (w : Collaborators) :
    Comes (t.place side) (t.started w) (t.effects (w.capabilities t.hint) (t.started w)) w
      (t.start side w) := by
  unfold start started
  by_cases hk : t.kept = true
  · simp only [if_pos hk]
    have g := grows_store (t.place side) t.envelope t.hint.isSome w
    have hs := fst_store (t.place side) t.envelope t.hint.isSome w
    have hc := capabilities_congr g.surroundings t.hint
    have hst : t.storing = [.store t.envelope t.hint.isSome] := if_pos hk
    rcases hw : w.store (t.place side) t.envelope t.hint.isSome with ⟨_ | fault, w₁⟩
    · rw [hw] at g hs hc
      rw [← hs]
      obtain ⟨u, c, hu⟩ := notify_spec t (t.place side) w₁
      rw [notified_congr g.surroundings g.connection] at c hu
      rw [hc, hst] at hu
      exact ⟨c.progress, (g.trans c.grows).of_eq hu⟩
    · rw [hw] at g hs hc
      rw [← hs]
      have g' := grows_breakOff t (t.place side) fault w₁
      rw [hc] at g'
      exact ⟨rfl, (g.trans g').of_eq (by rw [← hst]; rfl)⟩
  · simp only [if_neg hk]
    obtain ⟨u, c, hu⟩ := notify_spec t (t.place side) w
    rw [storing, if_neg hk, List.nil_append] at hu
    exact ⟨c.progress, c.grows.of_eq hu⟩

/-- A run that goes on comes to the standing of the reply. -/
theorem resume_spec (t : Task) (side : Side) (reply : Reply) (w : Collaborators) :
    Comes (t.place side) (t.arrived w (reply.behind w.latches))
      (t.closing (w.capabilities t.hint) (t.arrived w (reply.behind w.latches))) w
      (t.resume side reply w) :=
  receive_spec t (t.place side) (reply.behind w.latches) w

end Task
end Courier
