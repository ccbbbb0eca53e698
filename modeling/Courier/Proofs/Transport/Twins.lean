import Courier.Proofs.Task.Likeness
import Courier.Proofs.Transport.Balance

/-!
# Transports that are twins

Two transports over worlds that are alike are `Twins` if they differ at most in the fault by which the
run of the submission apart ended. Whatever is asked of twins has the same result, and leaves them twins
over worlds that are alike: submissions (`Twins.send`), changes of the collaborators (`Change.like`) and
the parts of a close (`Twins.beginClose`, `Twins.endClose`).
-/

namespace Courier.Transport

open Collaborators

variable {apart : Option SubmissionId} {known : HintId → Prop} {w w' : Collaborators} {t : Task}

/-! ## Calls of a transport -/

theorem like_reject (h : Like apart known w w') (hk : ∀ id, t.hint = some id → known id)
    (side : Side) (reason : RejectReason) :
    (reject side t reason w').1 = (reject side t reason w).1 ∧
      Like apart known (reject side t reason w).2 (reject side t reason w').2 := by
  have hc := capabilities_congr h.surroundings t.hint
  have told {w w' : Collaborators} (h : Like apart known w w') :
      Like apart known
        ((w.signalFailure (t.place side) t.hint true).log (t.place side)
          (.envelopeRejected t.label reason))
        ((w'.signalFailure (t.place side) t.hint true).log (t.place side)
          (.envelopeRejected t.label reason)) :=
    (h.signalFailure hk _ true).log _ _
  unfold reject
  rw [hc]
  by_cases hcached : (w.capabilities t.hint).cached = true
  · simp only [if_pos hcached]
    exact ⟨trivial, told h⟩
  · simp only [if_neg hcached]
    obtain ⟨hf, hs⟩ := h.store (t.place side) t.envelope t.hint.isSome
    rcases hw : w.store (t.place side) t.envelope t.hint.isSome with ⟨_ | fault, w₁⟩ <;>
      rcases hw' : w'.store (t.place side) t.envelope t.hint.isSome with ⟨_ | fault', w₁'⟩ <;>
      simp only [hw, hw'] at hf hs ⊢
    · exact ⟨trivial, told hs⟩
    · cases hf
    · cases hf
    · exact ⟨hf, hs⟩

theorem like_refuse (h : Like apart known w w') (hk : ∀ id, t.hint = some id → known id)
    (reason : RejectReason) (occupied : Nat) :
    let log := handler.log .caller (some t) (.jobRejected reason occupied)
    (handler.reject .caller t reason (log w')).1 = (handler.reject .caller t reason (log w)).1 ∧
      Like apart known (handler.reject .caller t reason (log w)).2
        (handler.reject .caller t reason (log w')).2 :=
  like_reject (h.log _ _) hk .caller reason

theorem like_filtered (h : Like apart known w w') {hint : Option HintId}
    (hk : ∀ id, hint = some id → known id) (t : Transport) (e : Envelope) :
    Like apart known (filtered t w e hint) (filtered t w' e hint) := by
  have hn : Like apart known (numbered w) (numbered w') :=
    ⟨congrArg (fun x : Surroundings => { x with submissions := x.submissions + 1 }) h.surroundings,
      h.files, h.hints, h.journal⟩
  have hp : nextPlace w' = nextPlace w := by
    unfold nextPlace
    rw [submissions_congr h.surroundings]
  have ha : Like apart known (announced w e hint) (announced w' e hint) := by
    unfold announced
    rw [capabilities_congr h.surroundings, hp]
    split
    · exact hn.log _ _
    · exact hn
  unfold filtered
  rw [hp]
  unfold Transport.filter
  split
  · exact (ha.filter hk _ e).2
  · exact ha

theorem like_sleep (h : Like apart known w w') (nanos : Nat) :
    Like apart known (w.sleep nanos) (w'.sleep nanos) :=
  ⟨congrArg (fun x : Surroundings => { x with clock := x.clock + nanos }) h.surroundings,
    h.files, h.hints, h.journal⟩

/-- A hint whose notification breaks off from now on. -/
theorem like_breakHint (h : Like apart known w w') (id : HintId) (fault : Option Fault) :
    Like apart known
      { w with hints := w.hints.modify id fun h => { h with flushFault := fault } }
      { w' with hints := w'.hints.modify id fun h => { h with flushFault := fault } } := by
  have abilities (hints : List Hint) :
      (hints.modify id fun h => { h with flushFault := fault }).map
          (fun h => (h.capabilities, h.flushFault)) =
        (hints.map fun h => (h.capabilities, h.flushFault)).modify id fun a => (a.1, fault) := by
    refine List.ext_getElem? fun i => ?_
    rw [List.getElem?_map, List.getElem?_modify, List.getElem?_modify, List.getElem?_map]
    split <;> cases hints[i]? <;> rfl
  refine ⟨?_, h.files, fun i hi => ?_, h.journal⟩
  · have ha := congrArg (fun x : Surroundings =>
      { x with abilities := x.abilities.modify id fun a => (a.1, fault) }) h.surroundings
    unfold surroundings at ha ⊢
    simp only [abilities]
    exact ha
  · show (w'.hints.modify id _)[i]? = (w.hints.modify id _)[i]?
    rw [List.getElem?_modify, List.getElem?_modify, h.hints i hi]

theorem Change.like (h : Like apart known w w') (c : Change) :
    Like apart known (c.apply w) (c.apply w') := by
  cases c with
  | setGate connected =>
    show Like apart known (w.setGate connected) (w'.setGate connected)
    unfold Collaborators.setGate
    rw [gate_congr h.surroundings]
    have hg : Like apart known { w with gate := (w.gate.set connected).1 }
        { w' with gate := (w.gate.set connected).1 } :=
      ⟨congrArg (fun x : Surroundings => { x with gate := (w.gate.set connected).1 })
        h.surroundings, h.files, h.hints, h.journal⟩
    exact hg.logAll _ _
  | replaceGate gate =>
    exact ⟨congrArg (fun x : Surroundings => { x with gate }) h.surroundings, h.files, h.hints,
      h.journal⟩
  | pushReply reply => exact ⟨h.surroundings, h.files, h.hints, h.journal⟩
  | openLatch latch =>
    exact ⟨congrArg (fun x : Surroundings => { x with latches := latch :: x.latches })
      h.surroundings, h.files, h.hints, h.journal⟩
  | changeLimits change =>
    show Like apart known (w.changeLimits change) (w'.changeLimits change)
    have hc : w'.limits.change w'.clock change = w.limits.change w.clock change := by
      rw [limits_congr h.surroundings, clock_congr h.surroundings]
    unfold Collaborators.changeLimits
    rw [hc]
    have hl : Like apart known { w with limits := (w.limits.change w.clock change).1 }
        { w' with limits := (w.limits.change w.clock change).1 } :=
      ⟨congrArg (fun x : Surroundings => { x with limits := (w.limits.change w.clock change).1 })
        h.surroundings, h.files, h.hints, h.journal⟩
    exact like_sleep (hl.logAll _ _) _
  | sleep nanos => exact like_sleep h nanos
  | breakCache storeFault discardFault =>
    unfold apply
    dsimp only
    rw [cache_congr h.surroundings]
    split
    · exact ⟨congrArg (fun x : Surroundings => { x with cache := .recording storeFault discardFault })
        h.surroundings, h.files, h.hints, h.journal⟩
    · exact h
    · exact h
  | breakHint hint fault => exact like_breakHint h hint fault

/-! ## Twins -/

/-- Two transports that differ at most in the fault by which the run of the task apart ended. -/
inductive Twins (apart : Option SubmissionId) (t : Transport) : Transport → Prop where
  | same : Twins apart t t
  | returned (task : Task) (fault fault' : Option Fault) (own : task.submission = apart)
      (some : apart.isSome = true) (worker : t.queue.worker = .returned task fault) :
      Twins apart t { t with queue := { t.queue with worker := .returned task fault' } }

namespace Twins

variable {tr tr' : Transport}

theorem occupied (h : Twins apart tr tr') : tr'.queue.occupied = tr.queue.occupied := by
  cases h <;> rfl

theorem state (h : Twins apart tr tr') : tr'.queue.state = tr.queue.state := by
  cases h <;> rfl

theorem settings (h : Twins apart tr tr') : tr'.settings = tr.settings := by
  cases h <;> rfl

theorem closed (h : Twins apart tr tr') : tr'.closed = tr.closed := by
  cases h <;> rfl

theorem refusal? (h : Twins apart tr tr') : tr'.queue.refusal? = tr.queue.refusal? := by
  cases h with
  | same => rfl
  | returned task fault fault' own some worker =>
    unfold Queue.refusal? Queue.isBroken
    rw [worker]

theorem left? (h : Twins apart tr tr') (e : Envelope) (hs : w'.surroundings = w.surroundings) :
    tr'.left? e w' = tr.left? e w := by
  rw [left?_congr hs]
  cases h <;> rfl

theorem map (h : Twins apart tr tr') {f : Transport → Transport}
    (hw : ∀ tr, (f tr).queue.worker = tr.queue.worker)
    (hf : ∀ (tr : Transport) (worker : Worker Task Reply),
      f { tr with queue := { tr.queue with worker } } =
        { f tr with queue := { (f tr).queue with worker } }) : Twins apart (f tr) (f tr') := by
  cases h with
  | same => exact .same
  | returned task fault fault' own some worker =>
    rw [hf tr (.returned task fault')]
    exact .returned task fault fault' own some (by rw [hw, worker])

theorem shutDown (h : Twins apart tr tr') (w w' : Collaborators) :
    Twins apart { tr with queue := (tr.queue.shutDown handler w).1 }
      { tr' with queue := (tr'.queue.shutDown handler w').1 } := by
  have hs (w) (q : Queue Task Reply) : (q.shutDown handler w).1 = (q.shutDown handler w').1 := by
    unfold Queue.shutDown
    split <;> rfl
  rw [hs w]
  refine h.map (f := fun tr => { tr with queue := (tr.queue.shutDown handler w').1 })
    (fun tr => Queue.worker_shutDown _ _ _) fun tr worker => ?_
  show ({ tr with queue := (Queue.shutDown handler { tr.queue with worker } w').1 } : Transport) = _
  unfold Queue.shutDown
  split <;> rfl

theorem like_shutDown (h : Twins apart tr tr') (hw : Like apart known w w') :
    Like apart known (tr.queue.shutDown handler w).2 (tr'.queue.shutDown handler w').2 := by
  cases h with
  | same =>
    unfold Queue.shutDown
    split
    · exact hw.log _ _
    · exact hw
  | returned task fault fault' own some worker =>
    unfold Queue.shutDown
    dsimp only
    split
    · exact hw.log _ _
    · exact hw

theorem cancel (h : Twins apart tr tr') :
    Twins apart { tr with queue := { tr.queue with cancelled := true } }
      { tr' with queue := { tr'.queue with cancelled := true } } :=
  h.map (f := fun tr => { tr with queue := { tr.queue with cancelled := true } }) (fun _ => rfl)
    fun _ _ => rfl

theorem beginClose (h : Twins apart tr tr') (hw : Like apart known w w') :
    Twins apart (tr.beginClose w).1 (tr'.beginClose w').1 ∧
      Like apart known (tr.beginClose w).2 (tr'.beginClose w').2 := by
  have hp : tr'.pending = tr.pending := h.occupied
  have hbegun : Like apart known (w.log here (.transportClosing tr.pending))
      (w'.log here (.transportClosing tr'.pending)) := by
    rw [hp]
    exact hw.log _ _
  exact ⟨(h.shutDown _ _).map (f := fun tr => { tr with closed := true }) (fun _ => rfl)
    fun _ _ => rfl, h.like_shutDown hbegun⟩

theorem endClose (h : Twins apart tr tr') (hw : Like apart known w w') :
    Twins apart (tr.endClose w).1 (tr'.endClose w').1 ∧
      Like apart known (tr.endClose w).2 (tr'.endClose w').2 := by
  have hp : tr'.pending = tr.pending := h.occupied
  have ht : tr'.queue.isTerminated = tr.queue.isTerminated := by
    unfold Queue.isTerminated
    rw [h.state]
  unfold Transport.endClose
  rw [ht]
  split
  · exact ⟨h, hw.log _ _⟩
  · have hlate : Like apart known
        ((w.sleep tr.settings.closeGrace).log here
          (.closeTimedOut tr.settings.closeGraceSecs tr.pending))
        ((w'.sleep tr'.settings.closeGrace).log here
          (.closeTimedOut tr'.settings.closeGraceSecs tr'.pending)) := by
      rw [h.settings, hp]
      exact (like_sleep hw _).log _ _
    exact ⟨h.cancel.shutDown _ _, h.cancel.like_shutDown hlate⟩

theorem accept (h : Twins apart tr tr') (task : Task) :
    Twins apart
      { tr with queue := { tr.queue with
        occupied := tr.queue.occupied + 1, waiting := tr.queue.waiting ++ [task] } }
      { tr' with queue := { tr'.queue with
        occupied := tr'.queue.occupied + 1, waiting := tr'.queue.waiting ++ [task] } } :=
  h.map (f := fun tr => { tr with queue := { tr.queue with
    occupied := tr.queue.occupied + 1, waiting := tr.queue.waiting ++ [task] } })
    (fun _ => rfl) fun _ _ => rfl

/-- What is submitted is dropped, accepted or refused by both. -/
theorem send (h : Twins apart tr tr') (hw : Like apart known w w') (e : Envelope)
    {hint : Option HintId} (hk : ∀ id, hint = some id → known id) :
    (tr'.send e hint w').1 = (tr.send e hint w).1 ∧
      Twins apart (tr.send e hint w).2.1 (tr'.send e hint w').2.1 ∧
      Like apart known (tr.send e hint w).2.2 (tr'.send e hint w').2.2 := by
  have hn : w'.submissions = w.submissions := submissions_congr hw.surroundings
  have hp : nextPlace w' = nextPlace w := by
    unfold nextPlace
    rw [hn]
  have hf : Like apart known (filtered tr w e hint) (filtered tr' w' e hint) := by
    have heq : filtered tr' w' e hint = filtered tr w' e hint := by cases h <;> rfl
    rw [heq]
    exact like_filtered hw hk tr e
  rw [send_eq, send_eq, h.left? e hw.surroundings, capabilities_congr hw.surroundings, hn, hp]
  cases tr.left? e w with
  | none =>
    dsimp only
    split
    · obtain ⟨hfault, hd⟩ := hf.discard (nextPlace w) e
      rcases he : (filtered tr w e hint).discard (nextPlace w) e with ⟨_ | fault, w₁⟩ <;>
        rcases he' : (filtered tr' w' e hint).discard (nextPlace w) e with ⟨_ | fault', w₁'⟩ <;>
        simp only [he, he'] at hfault hd ⊢
      · exact ⟨trivial, h, hd⟩
      · cases hfault
      · cases hfault
      · exact ⟨by cases hfault; rfl, h, hd⟩
    · exact ⟨rfl, h, hf⟩
  | some left =>
    have hr := h.refusal?
    cases hroom : tr.queue.refusal? with
    | none =>
      rw [hroom] at hr
      simp only [Queue.submit_of_refusal?_eq_none hroom, Queue.submit_of_refusal?_eq_none hr]
      exact ⟨trivial, h.accept _, hf⟩
    | some reason =>
      rw [hroom] at hr
      simp only [Queue.submit_of_refusal?_eq_some hroom, Queue.submit_of_refusal?_eq_some hr,
        h.occupied]
      obtain ⟨hfault, hrej⟩ := like_refuse (t := ⟨left, hint, ! (w.capabilities hint).cached,
        some w.submissions⟩) hf hk reason tr.queue.occupied
      generalize handler.reject .caller _ reason (handler.log .caller _ _ (filtered tr w e hint)) =
        rejected at hfault hrej ⊢
      generalize handler.reject .caller _ reason (handler.log .caller _ _ (filtered tr' w' e hint)) =
        rejected' at hfault hrej ⊢
      obtain ⟨fault, w₁⟩ := rejected
      obtain ⟨fault', w₁'⟩ := rejected'
      obtain rfl : fault' = fault := hfault
      cases fault' <;> exact ⟨rfl, h, hrej⟩

end Twins

end Courier.Transport
