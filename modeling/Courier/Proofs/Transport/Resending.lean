import Courier.Proofs.Queue.Worker
import Courier.Proofs.Task.Standing
import Courier.Transport.Recovery

/-!
# Sending an envelope again

An envelope that was read back from a cache on disk is sent by a transport that is at rest, without
limits and with an open gate. `resend_spec` says what comes of it if the reply is not held back: the
envelope is given to the connection once, the hint hears what the server said, the files change only
where success is reported, and the transport is at rest again.
-/

namespace Courier

/-! ## Queues at rest -/

namespace Queue

variable {J R W : Type} {h : Handler J R W} {q : Queue J R} {job : J} {w w' : W}

/-- A queue that accepts jobs and has none. -/
structure Resting (q : Queue J R) : Prop where
  ready : q.worker = .ready
  waiting : q.waiting = []
  accepting : q.accepting = true
  kept : q.cancelled = false
  idle : q.occupied = 0
  room : 0 < q.capacity

theorem resting_create (capacity : Nat) : (create capacity : Queue J R).Resting :=
  ⟨rfl, rfl, rfl, rfl, rfl, Nat.lt_of_lt_of_le Nat.one_pos (Nat.le_max_right capacity 1)⟩

/-- A queue at rest with one job more. -/
def withJob (q : Queue J R) (job : J) : Queue J R :=
  { q with occupied := q.occupied + 1, waiting := q.waiting ++ [job] }

namespace Resting

theorem submit (hq : q.Resting) (job : J) (w : W) :
    q.submit h job w = (.accepted, q.withJob job, w) := by
  refine submit_of_refusal?_eq_none ?_ job
  have hb : q.isBroken = false := by
    unfold isBroken
    rw [hq.ready]
  have hc : ¬ q.capacity ≤ 0 := Nat.not_le.2 hq.room
  unfold refusal?
  simp [hq.accepting, hq.idle, hb, hc]

/-- A job that comes to its end at once leaves the queue at rest. -/
theorem settle_withJob (hq : q.Resting) {fault : Option Fault}
    (hs : h.start job w = (.done fault, w')) :
    (q.withJob job).settle h w = (q, logFault h job fault w') := by
  obtain ⟨capacity, occupied, accepting, cancelled, state, waiting, worker⟩ := q
  obtain ⟨rfl, rfl, rfl, rfl, rfl, hroom⟩ := hq
  let q : Queue J R := ⟨capacity, 0, true, false, state, [], .ready⟩
  have first : (q.withJob job).step h w =
      some ({ q with occupied := 1, worker := .received job }, w) := rfl
  have second : ({ q with occupied := 1, worker := .received job } : Queue J R).step h w =
      some ({ q with occupied := 1, worker := .returned job fault }, w') := by
    simp only [step, q, hs]
    rfl
  have third : ({ q with occupied := 1, worker := .returned job fault } : Queue J R).step h w' =
      some (q, logFault h job fault w') := rfl
  have last : q.step h (logFault h job fault w') = none := rfl
  show run h ((q.withJob job).bound) (q.withJob job) w = _
  have hb : (q.withJob job).bound = 7 + 1 + 1 + 1 := rfl
  rw [hb, run_succ first, run_succ second, run_succ third, run_of_step_eq_none last]

end Resting
end Queue

/-! ## What a hint hears -/

/-- The hint of an envelope from the cache after a reply. -/
def Hint.answered (reply : Reply) : Hint :=
  { Hint.cached with
    retry := if reply.isFailure then some true else none
    result := some reply.isSuccess }

theorem Hint.isSuccess_answered (reply : Reply) : (Hint.answered reply).isSuccess = reply.isSuccess :=
  rfl

theorem Hint.isRetry_answered (reply : Reply) : (Hint.answered reply).isRetry = reply.isFailure := by
  unfold answered isRetry
  cases reply.isFailure <;> rfl

namespace Collaborators

variable {w : Collaborators} {id : HintId} {h : Hint}

theorem capabilities_of_hint (hh : w.hints[id]? = some h) :
    w.capabilities (some id) = h.capabilities := by
  unfold capabilities
  rw [Option.bind_some, hh]

theorem hints_set (hh : w.hints[id]? = some h) (new : Hint) : (w.hints.set id new)[id]? = some new :=
  List.getElem?_set_self (List.getElem?_eq_some_iff.1 hh).1

theorem hint_signalResult (hh : w.hints[id]? = some h) (hc : h.capabilities.result = true)
    (p : Place) (value : Bool) :
    (w.signalResult p (some id) value).hints[id]? = some (h.setResult value).1 := by
  unfold signalResult setResult
  simp only [capabilities_of_hint hh, hc, if_true, hh]
  exact hints_set hh _

theorem hint_signalRetry (hh : w.hints[id]? = some h) (hc : h.capabilities.retry = true)
    (p : Place) (value : Bool) :
    (w.signalRetry p (some id) value).hints[id]? = some (h.setRetry value).1 := by
  unfold signalRetry setRetry
  simp only [capabilities_of_hint hh, hc, if_true, hh]
  exact hints_set hh _

end Collaborators

namespace Task

variable {t : Task} {w : Collaborators} {id : HintId} {h : Hint}

theorem hint_report (ht : t.hint = some id) (hh : w.hints[id]? = some h)
    (hc : h.capabilities.result = true) (p : Place) (success : Bool) :
    (t.report p success w).hints[id]? = some (h.setResult success).1 := by
  unfold report
  rw [ht, Collaborators.capabilities_of_hint hh, if_pos hc]
  exact Collaborators.hint_signalResult (w := w.log p (.resultReported t.label success)) hh hc p
    success

theorem hint_receive (ht : t.hint = some id) (hk : t.kept = false)
    (hh : w.hints[id]? = some Hint.cached) (p : Place) {reply : Reply}
    (hr : reply.isHeld = false) :
    (t.receive p reply w).2.hints[id]? = some (Hint.answered reply) := by
  cases reply with
  | held latch reply => cases hr
  | fault fault =>
    exact hint_report (w := w.log p (.submissionFaulted t.label)) ht hh rfl p false
  | failure reason =>
    have hretry := Collaborators.hint_signalRetry
      (w := w.log p (t.errorNotice (.exchange reason))) hh rfl p true
    unfold receive fail
    simp only [SendError.isRetryable, if_true, ht]
    exact hint_report ht hretry rfl p false
  | answer outcome =>
    unfold receive
    cases ho : outcome.success with
    | true =>
      simp only [hk]
      rw [Hint.answered]
      simp only [Reply.isSuccess, ho]
      exact hint_report (w := w.log p (.envelopeDelivered t.label outcome.code)) ht hh rfl p true
    | false =>
      simp only [Hint.answered, Reply.isSuccess, ho]
      exact hint_report (w := w.log p (t.errorNotice (.rejected outcome.code))) ht hh rfl p false

end Task

/-! ## What the connection is given -/

/-- The envelope that an event gives to the connection. -/
def Event.given? : Event → Option Envelope
  | .send e => some e
  | .log _ | .store .. | .discard _ | .askGate _ | .setRetry .. | .setResult .. | .markFlushed _ => none

/-- What was given to the connection so far, the first thing first. -/
def Journal.given (journal : Journal) : List Envelope := journal.filterMap fun l => l.event.given?

theorem Journal.given_append (j k : Journal) : Journal.given (j ++ k) = j.given ++ k.given :=
  List.filterMap_append

theorem Collaborators.given_of_grows {p : Place} {u : List Event} {w w' : Collaborators}
    (g : Grows p u w w') : w'.journal.given = w.journal.given ++ u.filterMap Event.given? := by
  obtain ⟨lines, hj, -, hu⟩ := g.journal
  have hgiven : (fun l : Entry => l.event.given?) =
      fun l => (l.event.effect?).bind Event.given? := by
    funext l
    cases l.event <;> rfl
  rw [hj, Journal.given_append, ← hu, List.filterMap_filterMap, ← hgiven]
  rfl

theorem Collaborators.askGate_of_answer {w : Collaborators} (hg : w.gate.answer = .ok true)
    (p : Place) : w.askGate p = (.ok true, w.record p (.askGate true)) := by
  unfold Gate.answer at hg
  unfold askGate
  cases hf : w.gate.fault? with
  | some fault =>
    rw [hf] at hg
    cases hg
  | none =>
    rw [hf] at hg
    have hc : w.gate.isConnected = true := Except.ok.inj hg
    rw [hc]

/-! ## The replies to come -/

/-- The reply that a connection will give at some position, the next one at 0. -/
def Connection.replyAt (c : Connection) (i : Nat) : Reply := c.replies[i]?.getD c.fallback

theorem Connection.take_fst (c : Connection) : c.take.1 = c.replyAt 0 := by
  obtain ⟨_ | ⟨first, more⟩, fallback⟩ := c <;> rfl

theorem Connection.replyAt_take (c : Connection) (i : Nat) : c.take.2.replyAt i = c.replyAt (i + 1) := by
  obtain ⟨_ | ⟨first, more⟩, fallback⟩ := c <;> rfl

/-- Envelopes were given to the connection, each of them once and in this order, and the connection
replied to each of them. -/
structure Resent (es : List Envelope) (w w' : Collaborators) : Prop where
  replies : ∀ i, w'.connection.replyAt i = w.connection.replyAt (es.length + i)
  gate : w'.gate = w.gate
  given : w'.journal.given = w.journal.given ++ es

namespace Resent

variable {es es' : List Envelope} {w w' w'' : Collaborators}

theorem of_grows {p : Place} (g : Collaborators.Grows p [] w w') : Resent [] w w' where
  replies i := by
    rw [g.connection, List.length_nil, Nat.zero_add]
    rfl
  gate := Collaborators.gate_congr g.surroundings
  given := Collaborators.given_of_grows g

theorem of_same (hc : w'.connection = w.connection) (hg : w'.gate = w.gate)
    (hj : w'.journal = w.journal) : Resent [] w w' where
  replies i := by rw [hc, List.length_nil, Nat.zero_add]
  gate := hg
  given := by rw [hj, List.append_nil]

theorem trans (h : Resent es w w') (h' : Resent es' w' w'') : Resent (es ++ es') w w'' where
  replies i := by
    rw [h'.replies, h.replies, List.length_append, Nat.add_assoc]
  gate := h'.gate.trans h.gate
  given := by rw [h'.given, h.given, List.append_assoc]

theorem logAll (h : Resent es w w') (p : Place) (notices : List Notice) :
    Resent es w (w'.logAll p notices) := by
  have h' := h.trans (of_grows (Collaborators.grows_logAll p notices w'))
  rwa [List.append_nil] at h'

end Resent

namespace Task

variable {t : Task} {w : Collaborators} {id : HintId}

theorem start_of_cached (ht : t.hint = some id) (hk : t.kept = false)
    (hh : w.hints[id]? = some Hint.cached) (hg : w.gate.answer = .ok true)
    (hr : w.connection.take.1.isHeld = false) :
    t.start .worker w = t.receive (t.place .worker) w.connection.take.1
      ((w.record (t.place .worker) (.askGate true)).send (t.place .worker) t.envelope).2 := by
  have hcan : (w.capabilities (some id)).flush = false := by
    rw [Collaborators.capabilities_of_hint hh]
    rfl
  have hn (p : Place) : t.notify p w = t.askGate p w := by
    unfold notify
    simp only [ht, hcan]
    rfl
  unfold start
  simp only [hk, hn]
  unfold askGate
  rw [Collaborators.askGate_of_answer hg]
  show t.receive _ (w.connection.take.1.behind w.latches) _ = _
  rw [Reply.behind_of_not_isHeld hr]
  rfl

theorem started_of_cached (ht : t.hint = some id) (hk : t.kept = false)
    (hh : w.hints[id]? = some Hint.cached) (hg : w.gate.answer = .ok true)
    (hr : w.connection.take.1.isHeld = false) : t.started w = t.arrived w w.connection.take.1 := by
  have hcan : (w.capabilities (some id)).flush = false := by
    rw [Collaborators.capabilities_of_hint hh]
    rfl
  unfold started notified flushFault? asked sent
  rw [ht, Reply.behind_of_not_isHeld hr]
  simp only [hk, hcan, hg]
  rfl

/-- What that task does: the gate is asked, the envelope is sent, and the hint hears of it. -/
theorem effects_of_cached (ht : t.hint = some id) (hk : t.kept = false) {reply : Reply}
    (hr : reply.isHeld = false) (w : Collaborators) :
    ∃ u, t.effects Hint.cached.capabilities (t.arrived w reply) =
        [.askGate true, .send t.envelope] ++ u ∧
      (u = [.setResult id reply.isSuccess] ∨ u = [.setRetry id true, .setResult id false]) := by
  have hprepare : t.preparing Hint.cached.capabilities = [] := by
    unfold preparing storing Collaborators.notifying
    rw [ht, hk]
    rfl
  refine ⟨t.closing Hint.cached.capabilities (t.arrived w reply), ?_, ?_⟩
  · rw [effects, opening_arrived, hprepare]
    rfl
  · have hreport (value : Bool) : Collaborators.reporting Hint.cached.capabilities t.hint value =
        [.setResult id value] := by
      rw [ht]
      rfl
    have hretry : Collaborators.retrying Hint.cached.capabilities t.hint true =
        [.setRetry id true] := by
      rw [ht]
      rfl
    have hdiscard : t.discarding = [] := by
      unfold discarding
      rw [hk]
      rfl
    cases reply with
    | held latch reply => cases hr
    | fault fault => exact .inl (hreport false)
    | failure reason => exact .inr (by simp only [arrived, closing, hretry, hreport]; rfl)
    | answer outcome =>
      left
      unfold arrived Reply.isSuccess
      cases ho : outcome.success <;> simp [hk, closing, hreport, hdiscard, ho]

/-- The run of that task comes to its end at once, and its hint hears what the server said. -/
theorem resent_start (ht : t.hint = some id) (hk : t.kept = false)
    (hh : w.hints[id]? = some Hint.cached) (hg : w.gate.answer = .ok true)
    (hr : w.connection.take.1.isHeld = false) :
    ∃ fault w', t.start .worker w = (.done fault, w') ∧ Resent [t.envelope] w w' ∧
      w'.files = w.files ∧ w'.hints[id]? = some (Hint.answered w.connection.take.1) := by
  obtain ⟨ending, he⟩ : ∃ ending, t.arrived w w.connection.take.1 = .ended ending := by
    refine exists_ending (fun latch rest h => ?_) t w
    rw [h] at hr
    cases hr
  have hcan : w.capabilities t.hint = Hint.cached.capabilities := by
    rw [ht]
    exact Collaborators.capabilities_of_hint hh
  have hstart := t.start_spec .worker w
  rw [started_of_cached ht hk hh hg hr, hcan] at hstart
  obtain ⟨u, hu, hsignals⟩ := effects_of_cached ht hk hr w
  have hgrows := hstart.grows.of_eq hu
  have hconnection : (t.start .worker w).2.connection = w.connection.take.2 := by
    rw [hgrows.connection]
    rcases hsignals with rfl | rfl <;> rfl
  refine ⟨ending.fault?, (t.start .worker w).2, ?_, ⟨fun i => ?_, ?_, ?_⟩, ?_, ?_⟩
  · refine Prod.ext (hstart.progress.trans ?_) rfl
    rw [he]
    rfl
  · rw [hconnection, Connection.replyAt_take, List.length_singleton, Nat.add_comm]
  · exact Collaborators.gate_congr hgrows.surroundings
  · rw [Collaborators.given_of_grows hgrows]
    rcases hsignals with rfl | rfl <;> rfl
  · rw [hgrows.files]
    rcases hsignals with rfl | rfl <;> rfl
  · rw [start_of_cached ht hk hh hg hr]
    exact hint_receive (w := ((w.record (t.place .worker) (.askGate true)).send
      (t.place .worker) t.envelope).2) ht hk hh (t.place .worker) hr

end Task

/-! ## Sending again -/

namespace Transport

variable {c : DiskCache} {e : Envelope} {t : Transport} {w : Collaborators} {id : HintId}

/-- An envelope from the cache is handed to the queue as it is, and is not stored. -/
theorem send_of_cached (hq : t.queue.Resting) (hl : t.limited = false)
    (hh : w.hints[id]? = some Hint.cached) :
    t.send e (some id) w = (.handedOver,
      { t with queue := t.queue.withJob ⟨e, some id, false, some w.submissions⟩ },
      ({ w with submissions := w.submissions + 1 }).log ⟨.caller, some w.submissions⟩
        (.storeSkipped e.label)) := by
  have hcan : ({ w with submissions := w.submissions + 1 }).capabilities (some id) =
      Hint.cached.capabilities := Collaborators.capabilities_of_hint hh
  unfold send filter
  simp only [hl, hcan, hq.submit]
  rfl

/-- The worker sends it at once, and the transport is at rest again. -/
theorem settle_of_cached (hq : t.queue.Resting) (task : Task) (ht : task.hint = some id)
    (hk : task.kept = false) (hh : w.hints[id]? = some Hint.cached) (hg : w.gate.answer = .ok true)
    (hr : w.connection.take.1.isHeld = false) :
    ∃ w', ({ t with queue := t.queue.withJob task } : Transport).settle w = (t, w') ∧
      Resent [task.envelope] w w' ∧ w'.files = w.files ∧
      w'.hints[id]? = some (Hint.answered w.connection.take.1) := by
  obtain ⟨fault, w', hstart, hresent, hfiles, hhint⟩ := Task.resent_start ht hk hh hg hr
  refine ⟨Queue.logFault handler task fault w', ?_, ?_, ?_, ?_⟩
  · unfold settle
    rw [hq.settle_withJob hstart]
  · cases fault with
    | none => exact hresent
    | some fault => exact hresent.logAll (task.place .worker) [.jobFaulted fault.describe]
  · cases fault <;> exact hfiles
  · cases fault <;> exact hhint

/-- What is known of an envelope after a reply to it. -/
def Recovered.of (e : Envelope) (reply : Reply) : Recovered := ⟨e, reply.isSuccess, reply.isFailure⟩

/-- The files after an attempt to send an envelope again. -/
def filesAfter (c : DiskCache) (fs : FileSystem) (r : Recovered) : FileSystem :=
  if r.success then (c.discard fs r.envelope).1 else fs

/-- What comes of an envelope, by what its hint heard. -/
theorem resend_eq {t' t'' : Transport} {w₂ w₃ : Collaborators} {result : SendResult} {reply : Reply}
    (hsend : t.send e (some w.hints.length) (addHint Hint.cached w).2 = (result, t', w₂))
    (hsettle : t'.settle w₂ = (t'', w₃))
    (hhint : w₃.hints[w.hints.length]? = some (Hint.answered reply)) :
    resend c e t w =
      (.of e reply, t'', if reply.isSuccess then discardFrom c e w₃ else w₃) := by
  unfold resend addHint
  unfold addHint at hsend
  simp only [hsend, hsettle, hhint, Option.getD_some, Hint.isSuccess_answered, Hint.isRetry_answered]
  rfl

theorem resent_discardFrom (c : DiskCache) (e : Envelope) (w : Collaborators) :
    Resent [] w (discardFrom c e w) := by
  have h : Resent [] w { w with files := (c.discard w.files e).1 } := .of_same rfl rfl rfl
  exact h.logAll here (c.discard w.files e).2

/-- **Sending again.** A transport at rest gives the envelope to the connection once, says what the
reply was, touches its file only if it was delivered, and is at rest again. -/
theorem resend_spec (hq : t.queue.Resting) (hl : t.limited = false) (hg : w.gate.answer = .ok true)
    (hr : (w.connection.replyAt 0).isHeld = false) (c : DiskCache) (e : Envelope) :
    ∃ w', resend c e t w = (.of e (w.connection.replyAt 0), t, w') ∧ Resent [e] w w' ∧
      w'.files = filesAfter c w.files (.of e (w.connection.replyAt 0)) := by
  rw [← Connection.take_fst] at hr ⊢
  let task : Task := ⟨e, some w.hints.length, false, some w.submissions⟩
  let w₁ := { w with hints := w.hints ++ [Hint.cached], submissions := w.submissions + 1 }
  let w₂ := w₁.log ⟨.caller, some w.submissions⟩ (.storeSkipped e.label)
  have hh : (w.hints ++ [Hint.cached])[w.hints.length]? = some Hint.cached :=
    List.getElem?_concat_length
  have hsend : t.send e (some w.hints.length) (addHint Hint.cached w).2 =
      (.handedOver, { t with queue := t.queue.withJob task }, w₂) := send_of_cached hq hl hh
  obtain ⟨w₃, hsettle, hresent, hfiles, hhint⟩ :=
    settle_of_cached (t := t) (w := w₂) hq task rfl rfl hh hg hr
  have hbegun : Resent [] w w₁ := .of_same rfl rfl rfl
  have hsent : Resent [e] w w₃ := (hbegun.logAll _ [.storeSkipped e.label]).trans hresent
  refine ⟨_, resend_eq hsend hsettle hhint, ?_, ?_⟩
  · split
    · exact hsent.trans (resent_discardFrom c e w₃)
    · exact hsent
  · have hf : w₃.files = w.files := hfiles
    unfold filesAfter Recovered.of
    split
    · show (c.discard w₃.files e).1 = _
      rw [hf]
    · exact hf

/-- What is known of envelopes after the replies to them. -/
def outcomes (connection : Connection) (es : List Envelope) : List Recovered :=
  es.mapIdx fun i e => .of e (connection.replyAt i)

theorem outcomes_cons (connection : Connection) (e : Envelope) (es : List Envelope) :
    outcomes connection (e :: es) =
      .of e (connection.replyAt 0) :: es.mapIdx fun i e => .of e (connection.replyAt (i + 1)) :=
  List.mapIdx_cons

/-- All of them are sent again in this way, one after the other. -/
theorem resendAll_spec (hq : t.queue.Resting) (hl : t.limited = false)
    (hg : w.gate.answer = .ok true) (hr : ∀ i, (w.connection.replyAt i).isHeld = false)
    (c : DiskCache) (es : List Envelope) :
    ∃ w', resendAll c es t w = (outcomes w.connection es, t, w') ∧ Resent es w w' ∧
      w'.files = (outcomes w.connection es).foldl (filesAfter c) w.files := by
  induction es generalizing w with
  | nil => exact ⟨w, rfl, .of_same rfl rfl rfl, rfl⟩
  | cons e more ih =>
    obtain ⟨w₁, hfirst, hsent, hfiles⟩ := resend_spec hq hl hg (hr 0) c e
    have replies (i : Nat) : w₁.connection.replyAt i = w.connection.replyAt (i + 1) := by
      rw [hsent.replies, List.length_singleton, Nat.add_comm]
    have hrest : outcomes w₁.connection more =
        more.mapIdx fun i e => .of e (w.connection.replyAt (i + 1)) := by
      unfold outcomes
      simp only [replies]
    obtain ⟨w₂, hmore, hsent', hfiles'⟩ :=
      ih (w := w₁) (by rw [hsent.gate]; exact hg) fun i => by rw [replies]; exact hr (i + 1)
    refine ⟨w₂, ?_, hsent.trans hsent', ?_⟩
    · unfold resendAll
      simp only [hfirst, hmore, outcomes_cons, hrest]
    · rw [hfiles', hfiles, outcomes_cons, List.foldl_cons, hrest]

end Transport

end Courier
