import Courier.Proofs.Transport.Calls
import Courier.Proofs.Transport.Signals
import Courier.Proofs.Transport.Turns
import Courier.Transport.Session

/-!
# Closing is final

Once a close has returned, the queue is terminated or cancels what still waits (`Past`), and this stays
so. `Since s₁ s` says what can have become of everything between the scene `s₁` in which the close
returned and a later one: a run that had begun awaits its reply, what waited is cancelled, what comes
later is refused, and the connection is never called again. Every move keeps it
(`Since.move`). `final_of_run` reads off what callers may rely on after a close.
-/

namespace Courier

/-- What a reply is behind all its latches. -/
def Reply.content : Reply → Reply
  | .held _ reply => reply.content
  | reply => reply

/-- Open latches leave the reply itself, or hold it back further. -/
theorem Reply.behind_cases (opened : Latches) (reply : Reply) :
    reply.behind opened = reply.content ∨
      ∃ latch rest, reply.behind opened = .held latch rest ∧ rest.content = reply.content := by
  induction reply with
  | held latch rest ih =>
    unfold behind
    split
    · exact ih
    · exact .inr ⟨latch, rest, rfl, rfl⟩
  | answer outcome => exact .inl rfl
  | failure reason => exact .inl rfl
  | fault fault => exact .inl rfl

namespace Transport

open Collaborators

variable {s s' s₁ : Scene} {w w' : Collaborators} {t u : Task} {stage before after : Stage}

/-! ## After a close -/

/-- A close has returned: the queue is at its end, or cancels whatever still waits. -/
structure Past (s : Scene) : Prop where
  closed : s.transport.closed = true
  decided : s.transport.queue.worker = .stopped ∨ s.transport.queue.cancelled = true

theorem Past.not_start (hp : Past s) (hr : s.transport.queue.worker = .received t) :
    s.transport.queue.cancelled = true :=
  hp.decided.resolve_left (by rw [hr]; simp)

/-- The wait for the worker ends when the queue is terminated, or by cancelling what waits. -/
theorem Scene.Balanced.past_endClose (hb : s.Balanced) (hc : s.transport.closed = true) :
    Past (s.move .endClose) := by
  rw [move_endClose hc]
  by_cases ht : s.transport.queue.isTerminated = true
  · rw [Transport.endClose, if_pos ht]
    refine ⟨hc, .inl (hb.placed.sound.terminated.1 ?_)⟩
    simpa [Queue.isTerminated] using ht
  · rw [Transport.endClose, if_neg ht]
    exact ⟨hc, .inr (Queue.cancelled_shutDown _ _ _)⟩

theorem Past.work (hp : Past s) : Past s.work := by
  cases hst : s.transport.queue.step handler s.world with
  | none =>
    rw [Scene.work_of_step_eq_none hst]
    exact hp
  | some r =>
    obtain ⟨q', w'⟩ := r
    rw [Scene.work_of_step hst]
    refine ⟨hp.closed, .inr ?_⟩
    show q'.cancelled = true
    rw [(Queue.acts_of_step hst).cancelled_eq]
    refine hp.decided.resolve_left fun hw => ?_
    rw [Queue.step_eq_none_iff.2 (.inr (.inr (.inl hw)))] at hst
    cases hst

theorem Past.move (hb : s.Balanced) (hp : Past s) (m : Move) : Past (s.move m) := by
  cases m with
  | send e hint =>
    have he := (s.send_spec e hint).1
    show Past (s.send e hint)
    refine ⟨he.closed.1.trans hp.closed, ?_⟩
    generalize (s.send e hint).transport = transport at he
    cases he <;> exact hp.decided
  | beginFlush timeoutMs => exact ⟨hp.closed, hp.decided⟩
  | endFlush timeoutMs => exact ⟨hp.closed, hp.decided⟩
  | beginClose =>
    rw [Scene.move_beginClose_of_closed hp.closed]
    exact hp
  | endClose => exact hb.past_endClose hp.closed
  | work => exact hp.work
  | change c => exact ⟨hp.closed, hp.decided⟩

theorem Past.refusal? (hb : s.Balanced) (hp : Past s) :
    s.transport.queue.refusal? = some .shutDown := by
  have ha := hb.closed
  rw [hp.closed] at ha
  unfold Queue.refusal?
  rw [if_pos (by simpa using ha)]

/-! ## What becomes of tasks -/

/-- What can become of a task after a close: it is cancelled if it waits, and awaits its reply if it
runs. -/
inductive Becomes (t : Task) : Stage → Stage → Prop where
  | same (stage : Stage) : Becomes t stage stage
  | dropping : Becomes t .waiting .dropping
  | cancelled (fault : Option Fault) : Becomes t .waiting (.cancelled fault)
  | disposed (fault : Option Fault) : Becomes t .dropping (.cancelled fault)
  | awaits (reply rest : Reply) (content : rest.content = reply.content) :
      Becomes t (.started (.held reply)) (.started (.held rest))
  | arrives (reply : Reply) (w : Collaborators) :
      Becomes t (.started (.held reply)) (.started (t.arrived w reply.content))

theorem becomes_arrived (t : Task) (w : Collaborators) (reply : Reply) :
    Becomes t (.started (.held reply)) (.started (t.arrived w (reply.behind w.latches))) := by
  rcases reply.behind_cases w.latches with h | ⟨latch, rest, h, hc⟩
  · rw [h]
    exact .arrives reply w
  · rw [h]
    exact .awaits reply _ hc

theorem content_ne_held (reply : Reply) (latch : String) (rest : Reply) :
    reply.content ≠ .held latch rest := by
  induction reply with
  | held _ reply ih => exact ih
  | answer outcome => exact fun h => by cases h
  | failure reason => exact fun h => by cases h
  | fault fault => exact fun h => by cases h

theorem Becomes.trans (h : Becomes t stage before) (h' : Becomes t before after) :
    Becomes t stage after := by
  cases h with
  | same => exact h'
  | dropping =>
    cases h' with
    | same => exact .dropping
    | disposed fault => exact .cancelled fault
  | cancelled fault => cases h' with | same => exact .cancelled fault
  | disposed fault => cases h' with | same => exact .disposed fault
  | awaits reply rest content =>
    cases h' with
    | same => exact .awaits reply rest content
    | awaits _ rest' content' => exact .awaits reply rest' (content'.trans content)
    | arrives _ w =>
      rw [content]
      exact .arrives reply w
  | arrives reply w =>
    -- the run is over, and nothing more becomes of it
    obtain ⟨ending, he⟩ := Task.exists_ending (content_ne_held reply) t w
    have arrived := Becomes.arrives (t := t) reply w
    rw [he] at h' arrived
    cases h' with | same => exact arrived

/-! ## Since a close returned -/

/-- Lines in which the connection is not called. -/
def Journal.Sendless (lines : Journal) : Prop := ∀ l ∈ lines, ∀ e, l.event ≠ .send e

/-- What can have happened between the scene `s₁` in which a close returned and the scene `s`. -/
structure Since (s₁ s : Scene) : Prop where
  journal : ∃ lines : Journal, s.world.journal = s₁.world.journal ++ lines ∧ Journal.Sendless lines
  tasks : ∀ t before, s₁.ledger.Has t before → ∃ after, s.ledger.Has t after ∧ Becomes t before after
  late : ∀ (n : SubmissionId) (r : Record) (left : Envelope) (stage : Stage),
    s₁.ledger.length ≤ n → s.ledger[n]? = some r → r.fate = .passed left stage →
      ∃ fault, stage = .rejected .shutDown fault
  grows : s₁.ledger.length ≤ s.ledger.length

theorem Since.refl (s : Scene) : Since s s where
  journal := ⟨[], (List.append_nil _).symm, fun _ h => by cases h⟩
  tasks _ before h := ⟨before, h, .same before⟩
  late n r _ _ hn hr := absurd (List.getElem?_eq_some_iff.1 hr).1 (Nat.not_lt_of_le hn)
  grows := Nat.le_refl _

/-! ## Calls of the connection -/

theorem send_not_mem_closing {can : Capabilities} {standing : Standing} (e : Envelope) :
    Event.send e ∉ t.closing can standing := by
  have reports {value : Bool} : Event.send e ∉ reporting can t.hint value := fun h => by
    obtain ⟨id, -, h⟩ := mem_reporting h
    cases h
  have retries : Event.send e ∉ retrying can t.hint true := fun h => by
    obtain ⟨id, -, h⟩ := mem_retrying h
    cases h
  have discards : Event.send e ∉ t.discarding := fun h => by cases Task.mem_discarding h
  unfold Task.closing
  split <;> simp [reports, retries, discards]

theorem send_not_mem_rejecting {can : Capabilities} {fault : Option Fault} (e : Envelope) :
    Event.send e ∉ rejecting t can fault := by
  intro h
  have hc := List.mem_filter.2 ⟨h, (rfl : Event.isCall (.send e) = true)⟩
  rw [calls_rejecting] at hc
  split at hc <;> simp at hc

theorem exists_sendless {p : Place} {u : List Event} (g : Grows p u w w')
    (hu : ∀ e, Event.send e ∉ u) :
    ∃ lines : Journal, w'.journal = w.journal ++ lines ∧ Journal.Sendless lines := by
  obtain ⟨lines, hj, -, heffects⟩ := g.journal
  refine ⟨lines, hj, fun l hl e he => hu e ?_⟩
  rw [← heffects]
  exact List.mem_filterMap.2 ⟨l, hl, by rw [he]; rfl⟩

theorem Remarked.exists_sendless (h : Remarked w w') :
    ∃ lines : Journal, w'.journal = w.journal ++ lines ∧ Journal.Sendless lines := by
  obtain ⟨lines, hj, hlines⟩ := h
  refine ⟨lines, hj, fun l hl e he => ?_⟩
  have hn := (hlines l hl).2
  rw [he] at hn
  cases hn

namespace Since

theorem append (h : Since s₁ s)
    (hj : ∃ lines : Journal, w'.journal = s.world.journal ++ lines ∧ Journal.Sendless lines) :
    ∃ lines : Journal, w'.journal = s₁.world.journal ++ lines ∧ Journal.Sendless lines := by
  obtain ⟨old, hold, hs⟩ := h.journal
  obtain ⟨new, hnew, hs'⟩ := hj
  refine ⟨old ++ new, by rw [hnew, hold, List.append_assoc], fun l hl => ?_⟩
  exact (List.mem_append.1 hl).elim (hs l) (hs' l)

theorem quiet (h : Since s₁ s) (hl : s'.ledger = s.ledger)
    (hj : ∃ lines : Journal, s'.world.journal = s.world.journal ++ lines ∧ Journal.Sendless lines) :
    Since s₁ s' :=
  ⟨h.append hj, hl ▸ h.tasks, hl ▸ h.late, hl ▸ h.grows⟩

/-- The worker comes further with a task. -/
theorem went (h : Since s₁ s) (hh : s.ledger.Has t before) (hb : Becomes t before after)
    (hledger : s'.ledger = s.ledger.enter t after) {u : List Event}
    (hg : Grows (t.place .worker) u s.world s'.world) (hu : ∀ e, Event.send e ∉ u) :
    Since s₁ s' := by
  refine ⟨h.append (exists_sendless hg hu), fun v stage hv => ?_, fun n r left stage hn hr hf => ?_, ?_⟩
  · obtain ⟨now, hnow, hbecomes⟩ := h.tasks v stage hv
    rw [hledger]
    by_cases hs : v.submission = t.submission
    · obtain ⟨rfl, rfl⟩ := hnow.inj hh hs
      exact ⟨after, (hh.enter_iff _ _ _).2 (.inl ⟨rfl, rfl⟩), hbecomes.trans hb⟩
    · exact ⟨now, (hh.enter_iff _ _ _).2 (.inr ⟨hs, hnow⟩), hbecomes⟩
  · rw [hledger] at hr
    rcases hh.getElem?_enter after hr with ⟨-, r₀, hr₀, rfl, hf₀, -⟩ | ⟨-, hr⟩
    · -- what was refused is at no other stage later
      obtain ⟨fault, rfl⟩ := h.late n r₀ _ _ hn hr₀ hf₀
      injection hf with _ hstage
      cases hb with | same => exact ⟨fault, hstage.symm⟩
    · exact h.late n r left stage hn hr hf
  · rw [hledger, Ledger.length_enter]
    exact h.grows

end Since

/-- What is submitted after a close is refused, unless the limits drop it. -/
theorem Past.fate_entry (hp : Past s) (hb : s.Balanced) (e : Envelope) (hint : Option HintId) :
    (∃ fault, (s.entry e hint).fate = .dropped fault) ∨
      ∃ left fault, (s.entry e hint).fate = .passed left (.rejected .shutDown fault) := by
  unfold Scene.entry Scene.fateOf
  rw [hp.refusal? hb]
  cases s.transport.left? e s.world with
  | none => exact .inl ⟨_, rfl⟩
  | some left => exact .inr ⟨left, _, rfl⟩

theorem Past.transport_send (hp : Past s) (hb : s.Balanced) (e : Envelope) (hint : Option HintId) :
    (s.send e hint).transport = s.transport := by
  have he := (s.send_spec e hint).1
  have hf := hp.fate_entry hb e hint
  generalize (s.send e hint).transport = transport at he
  cases he with
  | accepted left fate room =>
    rw [hp.refusal? hb] at room
    cases room
  | dropped fault fate => rfl
  | rejected left reason fault fate => rfl

/-- The connection is not called for what is turned away at once. -/
theorem send_not_mem_effects {r : Record} (hr : r.fate.isImmediate = true) (n : SubmissionId)
    (e : Envelope) : Event.send e ∉ r.effects n := by
  intro h
  have hc := List.mem_filter.2 ⟨h, (rfl : Event.isCall (.send e) = true)⟩
  rw [calls_effects] at hc
  unfold Record.calls at hc
  split at hc
  iterate 3 split at hc <;> simp at hc
  · cases hc
  · cases hc
  next left standing hf =>
    rw [hf] at hr
    cases hr

namespace Since

theorem send (h : Since s₁ s) (hb : s.Balanced) (hp : Past s) (e : Envelope)
    (hint : Option HintId) : Since s₁ (s.send e hint) := by
  obtain ⟨-, hg⟩ := s.send_spec e hint
  have hfate := hp.fate_entry hb e hint
  have himmediate : (s.entry e hint).fate.isImmediate = true := by
    rcases hfate with ⟨fault, hf⟩ | ⟨left, fault, hf⟩ <;> rw [hf] <;> rfl
  refine ⟨h.append (exists_sendless (w := numbered s.world) hg (send_not_mem_effects himmediate _)),
    fun v stage hv => ?_, fun n r left stage hn hr hf => ?_, ?_⟩
  · obtain ⟨now, hnow, hbecomes⟩ := h.tasks v stage hv
    exact ⟨now, by rw [s.ledger_send, Ledger.has_append_iff]; exact .inl hnow, hbecomes⟩
  · rw [s.ledger_send] at hr
    rcases Ledger.getElem?_append_singleton hr with hr | ⟨-, rfl⟩
    · exact h.late n r left stage hn hr hf
    · rcases hfate with ⟨fault, hf'⟩ | ⟨left', fault, hf'⟩
      · rw [hf'] at hf
        cases hf
      · rw [hf'] at hf
        injection hf with _ hstage
        exact ⟨fault, hstage.symm⟩
  · rw [s.ledger_send, List.length_append]
    exact Nat.le_add_right_of_le h.grows

theorem work (h : Since s₁ s) (hb : s.Balanced) (hp : Past s) : Since s₁ s.work := by
  cases hst : s.transport.queue.step handler s.world with
  | none =>
    rw [Scene.work_of_step_eq_none hst]
    exact h
  | some r =>
    obtain ⟨q', w'⟩ := r
    rw [Scene.work_of_step hst]
    cases works_of_acts (Queue.acts_of_step hst) with
    | rests unstarted last noted => exact h.quiet noted (Remarked.of_eq rfl).exists_sendless
    | drops t takes noted =>
      exact h.went (hb.placed.has_received takes.received) .dropping noted (.refl _ _)
        fun e => List.not_mem_nil
    | starts t takes kept noted =>
      rw [hp.not_start takes.received] at kept
      cases kept
    | resumes t reply tends hand noted =>
      exact h.went (hb.placed.has_atHand hand) (becomes_arrived t s.world reply) noted
        (t.resume_spec .worker reply s.world).grows fun e => send_not_mem_closing e
    | returns t fault tends returned noted =>
      refine h.quiet noted ?_
      cases fault with
      | none => exact (Remarked.of_eq rfl).exists_sendless
      | some fault => exact exists_sendless (grows_log _ _ _) fun e => List.not_mem_nil
    | disposes t tends hand noted =>
      exact h.went (hb.placed.has_atHand hand) (.disposed _) noted
        (grows_reject .worker t .cancelled s.world) fun e => send_not_mem_rejecting e

theorem move (h : Since s₁ s) (hb : s.Balanced) (hp : Past s) (m : Move) : Since s₁ (s.move m) := by
  cases m with
  | send e hint => exact h.send hb hp e hint
  | beginFlush timeoutMs => exact h.quiet rfl (remarked_log _ _).exists_sendless
  | endFlush timeoutMs => exact h.quiet rfl (remarked_endFlush _ _ _).exists_sendless
  | beginClose =>
    rw [Scene.move_beginClose_of_closed hp.closed]
    exact h
  | endClose =>
    rw [Scene.move_endClose hp.closed]
    exact h.quiet rfl (remarked_endClose _ _).exists_sendless
  | work => exact h.work hb hp
  | change c => exact h.quiet rfl (c.remarked s.world).exists_sendless

end Since

/-- Whatever is done after a close, the scenes are past it. -/
theorem since_run (hb : s₁.Balanced) (hp : Past s₁) (moves : List Move) :
    (Scene.run moves s₁).Balanced ∧ Past (Scene.run moves s₁) ∧ Since s₁ (Scene.run moves s₁) :=
  Scene.run_induction (P := fun s => s.Balanced ∧ Past s ∧ Since s₁ s)
    (fun _ m ⟨hb, hp, h⟩ => ⟨hb.move m, hp.move hb m, h.move hb hp m⟩) ⟨hb, hp, .refl s₁⟩ moves

/-! ## What callers may rely on -/

/-- A task whose reply was held back awaits it, and ends as the reply has it. -/
def Scene.Completes (s : Scene) (t : Task) (reply : Reply) : Prop :=
  ∃ n standing, t.submission = some n ∧ s.ledger.Has t (.started standing) ∧
    s.world.journal.effects n = t.effects (s.world.capabilities t.hint) standing ∧
    ((∃ rest, standing = .held rest ∧ rest.content = reply.content) ∨
      ∃ w, standing = t.arrived w reply.content) ∧
    (s.Settled → s.Unheld → ∃ w, standing = t.arrived w reply.content)

/-- A task that did not start is cancelled by the worker, once, and nothing else is done for it. -/
def Scene.Cancels (s : Scene) (t : Task) : Prop :=
  ∃ n, t.submission = some n ∧
    ((s.ledger.Has t .waiting ∨ s.ledger.Has t .dropping) ∧ s.world.journal.effects n = [] ∨
      s.ledger.Has t (.cancelled none) ∧
        s.world.journal.effects n = rejecting t (s.world.capabilities t.hint) none) ∧
    (∀ l ∈ s.world.journal, l.place.submission = some n → l.event.effect?.isSome →
      l.place.side = .worker) ∧
    (s.Settled → s.Unheld → s.ledger.Has t (.cancelled none))

/-- A submission of which `left` passed the limits is refused and disposed of by its call. -/
def Scene.Refuses (s : Scene) (n : SubmissionId) (r : Record) (left : Envelope) : Prop :=
  r.fate = .passed left (.rejected .shutDown none) ∧
    s.world.journal.effects n = rejecting (r.task n left) r.can none ∧
    ∀ l ∈ s.world.journal, l.place.submission = some n → l.place.side = .caller

/-- A close that returned in the scene `s₁` is final, as seen in the scene `s`. -/
structure Final (s₁ s : Scene) : Prop where
  /-- The connection is not called again. -/
  calls : ∃ lines : Journal, s.world.journal = s₁.world.journal ++ lines ∧ Journal.Sendless lines
  running : ∀ t reply, s₁.ledger.Has t (.started (.held reply)) → s.Completes t reply
  unstarted : ∀ t, s₁.ledger.Has t .waiting ∨ s₁.ledger.Has t .dropping → s.Cancels t
  /-- Nothing is cancelled while a task is running, and then everything in order. -/
  held : ∀ t reply rest u, s₁.ledger.Has t (.started (.held reply)) →
    s.ledger.Has t (.started (.held rest)) → s₁.ledger.Has u .waiting → s.ledger.Has u .waiting
  order : (s.world.journal.ofWorker).Pairwise fun l l' => l.place.submission ≤ l'.place.submission
  late : ∀ (n : SubmissionId) (r : Record) (left : Envelope), s₁.ledger.length ≤ n →
    s.ledger[n]? = some r → r.left? = some left → s.Refuses n r left
  send : ∀ e hint, (s.send e hint).transport = s.transport
  /-- Another close does nothing. -/
  close : act .close s.transport s.world = (.closed, s.transport, s.world) ∧ s.move .beginClose = s
  drained : s.Settled → s.Unheld → s.transport.queue.state = .terminated ∧ s.transport.pending = 0

theorem Scene.Balanced.effects_of_has (hb : s.Balanced) (h : s.ledger.Has t stage) :
    ∃ n, t.submission = some n ∧
      s.world.journal.effects n = stage.effects t (s.world.capabilities t.hint) := by
  obtain ⟨n, r, hr, hf, ht⟩ := h
  have hcan := hb.booked.abilities n r hr
  have hhint : r.hint = t.hint := by rw [ht]; rfl
  rw [hhint] at hcan
  exact ⟨n, by rw [ht]; rfl, by
    rw [hb.booked.effects n r hr, Record.effects_of_fate hf ht, hcan]⟩

theorem whole_of_isCutShort (whole : ∀ r ∈ s.ledger, r.isCutShort = false) {fault : Option Fault}
    (h : s.ledger.Has t (.cancelled fault)) : fault = none := by
  obtain ⟨n, r, hr, hf, -⟩ := h
  have hw := whole r (List.mem_of_getElem? hr)
  unfold Record.isCutShort at hw
  rw [hf] at hw
  cases fault with
  | none => rfl
  | some fault => cases hw

theorem endsWorker_of_isCutShort {r : Record} (h : r.isCutShort = false) : r.endsWorker = false := by
  unfold Record.isCutShort at h
  unfold Record.endsWorker
  split
  next left fault hf =>
    rw [hf] at h
    cases h
  · rfl

theorem Scene.Drained.not_has (hd : s.Drained) (h : s.ledger.Has t stage) :
    (stage.isAtHand || stage == .waiting) = false := by
  obtain ⟨n, r, hr, hf, -⟩ := h
  have ho := hd.allOver r (List.mem_of_getElem? hr)
  unfold Record.isOver at ho
  rw [hf] at ho
  rcases stage with ⟨_, _⟩ | _ | _ | _ | (_ | _) <;> first | rfl | cases ho

theorem Past.drained (hp : Past s) (hb : s.Balanced) (whole : ∀ r ∈ s.ledger, r.isCutShort = false)
    (hst : s.Settled) (hu : s.Unheld) : s.Drained :=
  (hb.drained_iff hp.closed hst hu).2 fun r hr => endsWorker_of_isCutShort (whole r hr)

namespace Since

theorem completes (h : Since s₁ s) (hb : s.Balanced) (hp : Past s)
    (whole : ∀ r ∈ s.ledger, r.isCutShort = false) {reply : Reply}
    (hh : s₁.ledger.Has t (.started (.held reply))) : s.Completes t reply := by
  obtain ⟨after, hafter, hbecomes⟩ := h.tasks t _ hh
  obtain ⟨n, hn, heffects⟩ := hb.effects_of_has hafter
  have gone {rest : Reply} (hheld : s.ledger.Has t (.started (.held rest))) (hst : s.Settled)
      (hu : s.Unheld) : False := by
    cases (hp.drained hb whole hst hu).not_has hheld
  cases hbecomes with
  | same =>
    exact ⟨n, _, hn, hafter, heffects, .inl ⟨reply, rfl, rfl⟩,
      fun hst hu => (gone hafter hst hu).elim⟩
  | awaits _ rest content =>
    exact ⟨n, _, hn, hafter, heffects, .inl ⟨rest, rfl, content⟩,
      fun hst hu => (gone hafter hst hu).elim⟩
  | arrives _ w => exact ⟨n, _, hn, hafter, heffects, .inr ⟨w, rfl⟩, fun _ _ => ⟨w, rfl⟩⟩

theorem cancels (h : Since s₁ s) (hb : s.Balanced) (hp : Past s) (hi : InTurn s)
    (whole : ∀ r ∈ s.ledger, r.isCutShort = false)
    (hh : s₁.ledger.Has t .waiting ∨ s₁.ledger.Has t .dropping) : s.Cancels t := by
  have hnow : ∃ after, s.ledger.Has t after ∧
      (after = .waiting ∨ after = .dropping ∨ ∃ fault, after = .cancelled fault) := by
    rcases hh with hh | hh <;> obtain ⟨after, hafter, hbecomes⟩ := h.tasks t _ hh <;>
      refine ⟨after, hafter, ?_⟩ <;> cases hbecomes <;> simp
  obtain ⟨after, hafter, hstage⟩ := hnow
  obtain ⟨n, hn, heffects⟩ := hb.effects_of_has hafter
  refine ⟨n, hn, ?_, fun l hl hs heff => ?_, fun hst hu => ?_⟩
  · rcases hstage with rfl | rfl | ⟨fault, rfl⟩
    · exact .inl ⟨.inl hafter, heffects⟩
    · exact .inl ⟨.inr hafter, heffects⟩
    · obtain rfl := whole_of_isCutShort whole hafter
      exact .inr ⟨hafter, heffects⟩
  · -- a caller does nothing for a submission that was accepted
    cases hside : l.place.side with
    | worker => rfl
    | caller =>
      obtain ⟨r, hr, himmediate⟩ := hi.caller l hl hside heff n hs
      obtain ⟨r', hr', hf, -⟩ := hafter.exists_record hn
      rw [hr] at hr'
      cases hr'
      rw [hf] at himmediate
      rcases hstage with rfl | rfl | ⟨fault, rfl⟩ <;> cases himmediate
  · have hd := (hp.drained hb whole hst hu).not_has hafter
    rcases hstage with rfl | rfl | ⟨fault, rfl⟩
    · cases hd
    · cases hd
    · obtain rfl := whole_of_isCutShort whole hafter
      exact hafter

/-- While a task is running, those after it wait. -/
theorem waits (h : Since s₁ s) (hb₁ : s₁.Balanced) (hi₁ : InTurn s₁) (hb : s.Balanced)
    (hi : InTurn s) {reply rest : Reply} (hrun : s₁.ledger.Has t (.started (.held reply)))
    (hheld : s.ledger.Has t (.started (.held rest))) (hu : s₁.ledger.Has u .waiting) :
    s.ledger.Has u .waiting := by
  obtain ⟨n, hn, -⟩ := hrun.submission
  have hlt : t.submission < u.submission := by
    rw [hn]
    exact hi₁.first.waits n (hrun.taken rfl hn) u ((hb₁.placed.waiting u).2 hu)
  have hcurrent : t ∈ current s.transport.queue.worker := by
    have hh := (hb.placed.hand t _ rfl).2 hheld
    generalize s.transport.queue.worker = worker at hh
    cases worker <;> cases hh
    exact rfl
  obtain ⟨after, hafter, hbecomes⟩ := h.tasks u _ hu
  -- the worker cannot have taken it, as it took the running one last
  have untaken : after.isTaken = false := by
    rw [← Bool.not_eq_true]
    intro htaken
    obtain ⟨m, hm, -⟩ := hafter.submission
    have hle := hi.first.last m (hafter.taken htaken hm) t hcurrent
    rw [hm, hn] at hlt
    rw [hn] at hle
    exact Nat.lt_irrefl n (Nat.lt_of_lt_of_le hlt hle)
  cases hbecomes with
  | same => exact hafter
  | dropping => cases untaken
  | cancelled fault => cases untaken

theorem refuses (h : Since s₁ s) (hb : s.Balanced) (hi : InTurn s)
    (whole : ∀ r ∈ s.ledger, r.isCutShort = false) {n : SubmissionId} {r : Record} {left : Envelope}
    (hn : s₁.ledger.length ≤ n) (hr : s.ledger[n]? = some r) (hl : r.left? = some left) :
    s.Refuses n r left := by
  have hfate : r.fate = .passed left (.rejected .shutDown none) := by
    unfold Record.left? at hl
    split at hl
    · cases hl
    next left' stage hf =>
      cases hl
      obtain ⟨fault, rfl⟩ := h.late n r left stage hn hr hf
      have hw := whole r (List.mem_of_getElem? hr)
      unfold Record.isCutShort at hw
      rw [hf] at hw
      cases fault with
      | none => exact hf
      | some fault => cases hw
  refine ⟨hfate, ?_, fun l hl hs => ?_⟩
  · rw [hb.booked.effects n r hr]
    unfold Record.effects
    rw [hfate]
    rfl
  · cases hside : l.place.side with
    | caller => rfl
    | worker =>
      obtain ⟨r', left', stage, hr', hf, ht⟩ := hi.worker l hl hside n hs
      rw [hr] at hr'
      cases hr'
      rw [hfate] at hf
      cases hf
      cases ht

theorem final (h : Since s₁ s) (hb₁ : s₁.Balanced) (hi₁ : InTurn s₁) (hb : s.Balanced) (hp : Past s)
    (hi : InTurn s) (whole : ∀ r ∈ s.ledger, r.isCutShort = false) : Final s₁ s where
  calls := h.journal
  running _ _ hh := h.completes hb hp whole hh
  unstarted _ hh := h.cancels hb hp hi whole hh
  held _ _ _ _ hrun hheld hu := h.waits hb₁ hi₁ hb hi hrun hheld hu
  order := hi.order
  late _ _ _ hn hr hl := h.refuses hb hi whole hn hr hl
  send := hp.transport_send hb
  close := by
    refine ⟨?_, Scene.move_beginClose_of_closed hp.closed⟩
    show (Answer.closed, s.transport.close s.world) = _
    rw [Transport.close, if_pos hp.closed]
  drained hst hu :=
    have hd := hp.drained hb whole hst hu
    ⟨hd.terminated, hd.pending⟩

end Since

/-- **Closing is final.** Take any run in which a close has returned, and any scene after that, and let
no disposing of a task have broken off. The connection was not called again. A task that was running
ends as its reply has it. What had not started is cancelled by the worker, in order and after that
task: stored unless it is in the cache, with a failure and the advice to try again. Whatever passes the
limits later is disposed of in the same way by its call, and changes nothing about the transport. Another
close does nothing. A worker with nothing left to do has terminated the queue, and nothing is pending. -/
theorem final_of_run {settings : TransportSettings} {limited : Bool} (hu : Unused w)
    {t : Transport} (hs : start settings limited w = (.ok t, w')) (moves after : List Move)
    (hc : (Scene.run moves ⟨t, w', []⟩).transport.closed = true) :
    let s₁ := Scene.run (moves ++ [.endClose]) ⟨t, w', []⟩
    let s := Scene.run after s₁
    (∀ r ∈ s.ledger, r.isCutShort = false) →
    Final s₁ s ∧ Scene.Recorded (moves ++ .endClose :: after) ⟨t, w', []⟩ := by
  intro s₁ s whole
  have hb₀ := balanced_start hu hs
  have hs₁ : s₁ = (Scene.run moves ⟨t, w', []⟩).move .endClose := Scene.run_append ..
  have hb₁ : s₁.Balanced := hb₀.run _
  have hp₁ : Past s₁ := hs₁ ▸ (hb₀.run moves).past_endClose hc
  have hi₁ : InTurn s₁ := inTurn_of_run hu hs _
  have hi : InTurn s := by
    have h := inTurn_of_run hu hs (moves ++ [.endClose] ++ after)
    rwa [Scene.run_append] at h
  obtain ⟨hb, hp, h⟩ := since_run hb₁ hp₁ after
  exact ⟨h.final hb₁ hi₁ hb hp hi whole, hb₀.recorded rfl _⟩

/-- A world in which the first reply is held back. -/
def heldWorld : Collaborators :=
  { hintedWorld with connection := ⟨[.held "latch" (.answer (.accepted 200))], .failure "down"⟩ }

/-- One task is running and another one waits when the transport is closed. -/
def beforeClose : List Move :=
  [.send (sampleEnvelope "first") (some 0), .work, .work,
    .send (sampleEnvelope "second") (some 1), .beginClose]

/-- Something is sent after the close, and then the reply comes. -/
def afterClose : List Move :=
  [.send (sampleEnvelope "third") none, .change (.openLatch "latch"), .work, .work, .work, .work,
    .work, .work]

def heldScene : Scene :=
  ⟨⟨sampleSettings, false, Queue.create 2, false⟩,
    heldWorld.log here (.transportStarted 2 0), []⟩

/-- The scene in which the close has returned. -/
def returnedScene : Scene := .run (beforeClose ++ [.endClose]) heldScene

theorem final_of_held :
    let s := Scene.run afterClose returnedScene
    (Scene.run beforeClose heldScene).transport.closed = true ∧
      (∀ r ∈ s.ledger, r.isCutShort = false) ∧ Final returnedScene s ∧
      s.world.journal.effects 0 = [.store (sampleEnvelope "first") true, .markFlushed 0,
        .askGate true, .send (sampleEnvelope "first"), .discard (sampleEnvelope "first"),
        .setResult 0 true] ∧
      s.world.journal.effects 1 =
        [.store (sampleEnvelope "second") true, .setResult 1 false, .setRetry 1 true] ∧
      s.transport.queue.state = .terminated ∧ s.transport.pending = 0 := by
  have hc : (Scene.run beforeClose heldScene).transport.closed = true := rfl
  have whole : ∀ r ∈ (Scene.run afterClose returnedScene).ledger, r.isCutShort = false := by decide
  have hu : Unused heldWorld := ⟨rfl, fun _ h => by cases h⟩
  have h := (final_of_run hu (start_of_ne_zero (by decide) false heldWorld) beforeClose afterClose hc
    whole).1
  exact ⟨hc, whole, h, by decide +kernel, by decide +kernel, h.drained rfl fun t reply hr => by cases hr⟩

end Transport
end Courier
