import Courier.Proofs.Task.Likeness
import Courier.Proofs.Transport.Ledger

/-!
# The course of a run

`Task.plan` lists the calls that the run of a task makes if every call returns, each with the way in
which the collaborators let it end. `perform` goes through them up to the first one that does not
return, and `Task.course` adds what the hint is told at the end. `course_of_run` says that every run
takes this course, also one whose reply is held back for a while: a call that breaks off is the last
one, the result is told nevertheless, and the fault leaves the run.
-/

namespace Courier

/-! ## Calls that may not return -/

/-- A call, and how it ends: it returns, it breaks off by a fault, or it waits. -/
structure Attempt where
  event : Event
  progress : Progress Reply

/-- Calls in their order, up to the first one that does not return, and how the last one ended. -/
def perform : List Attempt → List Event × Progress Reply
  | [] => ([], .done none)
  | attempt :: more =>
    match attempt.progress with
    | .done none => (attempt.event :: (perform more).1, (perform more).2)
    | .done (some fault) => ([attempt.event], .done (some fault))
    | .waiting reply => ([attempt.event], .waiting reply)

/-- Calls that all end in the same way. -/
def attempts (events : List Event) (progress : Progress Reply) : List Attempt :=
  events.map (⟨·, progress⟩)

/-- Whether all calls return. -/
def Returned (calls : List Attempt) : Prop := ∀ a ∈ calls, a.progress = .done none

theorem returned_attempts (events : List Event) : Returned (attempts events (.done none)) := by
  intro a ha
  obtain ⟨e, -, rfl⟩ := List.mem_map.1 ha
  rfl

@[simp] theorem events_attempts (events : List Event) (progress : Progress Reply) :
    (attempts events progress).map Attempt.event = events := by
  rw [attempts, List.map_map]
  exact List.map_id _

theorem perform_append {first : List Attempt} (h : Returned first) (more : List Attempt) :
    perform (first ++ more) = (first.map Attempt.event ++ (perform more).1, (perform more).2) := by
  induction first with
  | nil => rfl
  | cons a rest ih =>
    have ha : a.progress = .done none := h a List.mem_cons_self
    have hrest := ih fun b hb => h b (List.mem_cons_of_mem a hb)
    rw [List.cons_append, perform, ha]
    dsimp only
    rw [hrest, List.map_cons, List.cons_append]

theorem perform_subset (calls : List Attempt) : (perform calls).1 ⊆ calls.map Attempt.event := by
  induction calls with
  | nil => exact List.nil_subset _
  | cons a rest ih =>
    rw [perform, List.map_cons]
    split
    · exact List.cons_subset_cons a.event ih
    · exact List.cons_subset_cons a.event (List.nil_subset _)
    · exact List.cons_subset_cons a.event (List.nil_subset _)

/-- If nothing broke off or waits, all calls were made. -/
theorem perform_of_returned {calls : List Attempt} (h : (perform calls).2 = .done none) :
    Returned calls ∧ (perform calls).1 = calls.map Attempt.event := by
  induction calls with
  | nil => exact ⟨(fun _ ha => by cases ha), rfl⟩
  | cons a rest ih =>
    unfold perform at h ⊢
    split at h
    next hp =>
      obtain ⟨hrest, he⟩ := ih h
      exact ⟨List.forall_mem_cons.2 ⟨hp, hrest⟩, by rw [he, List.map_cons]⟩
    next => cases h
    next => cases h

/-- The call that breaks off is the last one that is made. -/
theorem perform_of_broken {calls : List Attempt} {fault : Fault}
    (h : (perform calls).2 = .done (some fault)) :
    ∃ first event rest, calls = first ++ ⟨event, .done (some fault)⟩ :: rest ∧ Returned first ∧
      (perform calls).1 = first.map Attempt.event ++ [event] := by
  induction calls with
  | nil => cases h
  | cons a rest ih =>
    obtain ⟨event, progress⟩ := a
    unfold perform at h ⊢
    split at h
    next hp =>
      obtain rfl : progress = .done none := hp
      obtain ⟨first, last, behind, rfl, hfirst, he⟩ := ih h
      refine ⟨⟨event, .done none⟩ :: first, last, behind, rfl, ?_, ?_⟩
      · exact List.forall_mem_cons.2 ⟨rfl, hfirst⟩
      · dsimp only
        rw [he, List.map_cons, List.cons_append]
    next f hp =>
      obtain rfl : progress = .done (some f) := hp
      cases h
      exact ⟨[], event, rest, rfl, (fun _ hb => by cases hb), rfl⟩
    next => cases h

/-- Calls that do not wait all return, or one of them breaks off and is the last one. -/
theorem returned_or_broken {first : List Attempt}
    (h : ∀ a ∈ first, ∃ fault, a.progress = .done fault) (more : List Attempt) :
    Returned first ∨ (∃ fault, (perform (first ++ more)).2 = .done (some fault)) ∧
      (perform (first ++ more)).1 ⊆ first.map Attempt.event := by
  induction first with
  | nil => exact .inl fun _ ha => by cases ha
  | cons a rest ih =>
    obtain ⟨fault, ha⟩ := h a List.mem_cons_self
    rw [List.cons_append, perform, ha]
    cases fault with
    | some fault => exact .inr ⟨⟨fault, rfl⟩, List.cons_subset_cons a.event (List.nil_subset _)⟩
    | none =>
      rcases ih fun b hb => h b (List.mem_cons_of_mem a hb) with hrest | ⟨hp, hsub⟩
      · exact .inl (List.forall_mem_cons.2 ⟨ha, hrest⟩)
      · exact .inr ⟨hp, List.cons_subset_cons a.event hsub⟩

theorem exists_perform_eq_done {calls : List Attempt}
    (h : ∀ a ∈ calls, ∃ fault, a.progress = .done fault) :
    ∃ fault, (perform calls).2 = .done fault := by
  rcases returned_or_broken h [] with hr | ⟨⟨fault, hf⟩, -⟩
  · have hp := perform_append hr []
    rw [List.append_nil] at hp
    exact ⟨none, by rw [hp]; rfl⟩
  · rw [List.append_nil] at hf
    exact ⟨some fault, hf⟩

/-! ## The course -/

/-- How the call of a connection ends that gives a reply. -/
def Reply.progress : Reply → Progress Reply
  | .answer _ | .failure _ => .done none
  | .fault f => .done (some f)
  | .held latch reply => .waiting (.held latch reply)

/-- How collaborators behave towards a run: the faults by which their calls break off, the gate, and
the reply. -/
structure Conduct where
  store : Option Fault
  flush : Option Fault
  gate : Gate
  reply : Reply
  discard : Option Fault

namespace Conduct

/-- Whether a run in which nothing breaks off asks for another attempt: the gate is closed, or the
exchange failed. -/
def asksAgain (c : Conduct) : Bool := ! c.gate.isConnected || c.reply.isFailure

/-- Whether the gate is open and the server takes the envelope. -/
def succeeds (c : Conduct) : Bool := c.gate.isConnected && c.reply.isSuccess

end Conduct

namespace Task

open Collaborators

/-- How the collaborators of a world behave towards the run of a task. -/
def conduct (t : Task) (w : Collaborators) : Conduct where
  store := w.cache.storeFault? t.envelope
  flush := t.flushFault? w
  gate := w.gate
  reply := w.reply
  discard := w.cache.discardFault? t.envelope

/-- How they behave in another world, in which the run goes on with a reply that was held back. -/
def conductOn (t : Task) (c : Conduct) (held : Reply) (w : Collaborators) : Conduct :=
  { c with
    reply := held.behind w.latches
    discard := w.cache.discardFault? t.envelope }

/-- The calls of a run before the envelope is sent. -/
def leading (t : Task) (can : Capabilities) (c : Conduct) : List Attempt :=
  attempts t.storing (.done c.store) ++ (attempts (notifying can t.hint) (.done c.flush) ++
    attempts [.askGate c.gate.isConnected] (.done c.gate.fault?))

/-- Sending the envelope, and discarding it if the server takes it. -/
def delivering (t : Task) (c : Conduct) : List Attempt :=
  ⟨.send t.envelope, c.reply.progress⟩ ::
    if c.reply.isSuccess then attempts t.discarding (.done c.discard) else []

/-- The calls of a run, if every call returns. -/
def plan (t : Task) (can : Capabilities) (c : Conduct) : List Attempt :=
  t.leading can c ++ if c.gate.isConnected then t.delivering c else []

/-- How far a run comes. -/
def progress (t : Task) (can : Capabilities) (c : Conduct) : Progress Reply :=
  (perform (t.plan can c)).2

/-- What a hint is told at the end. If a call broke off that is the result only. -/
def ending (t : Task) (can : Capabilities) (c : Conduct) : Progress Reply → List Event
  | .waiting _ => []
  | .done (some _) => reporting can t.hint false
  | .done none =>
    (if c.asksAgain then retrying can t.hint true else []) ++ reporting can t.hint c.succeeds

/-- What a run does: its calls, and what it tells the hint at the end. -/
def course (t : Task) (can : Capabilities) (c : Conduct) : List Event :=
  (perform (t.plan can c)).1 ++ t.ending can c (t.progress can c)

/-! ## From standings to courses -/

variable {t : Task} {can : Capabilities} {c : Conduct} {w : Collaborators} {s : Standing}
  {before : List Event} {calls : List Attempt}

/-- A run that has done `before` and goes on with `calls` comes to the standing `s`. -/
structure Meets (t : Task) (can : Capabilities) (c : Conduct) (before : List Event)
    (calls : List Attempt) (s : Standing) : Prop where
  progress : s.progress = (perform calls).2
  effects : t.effects can s = before ++ ((perform calls).1 ++ t.ending can c (perform calls).2)

theorem Meets.attempts {events : List Event} (h : Meets t can c (before ++ events) calls s) :
    Meets t can c before (attempts events (.done none) ++ calls) s := by
  have hperform := perform_append (returned_attempts events) calls
  rw [events_attempts] at hperform
  refine ⟨by rw [hperform, h.progress], ?_⟩
  rw [hperform, h.effects, List.append_assoc, List.append_assoc]

/-- A reply ends a run, or goes on to hold it back, as a plan says. -/
theorem perform_delivering (can : Capabilities) (hg : c.gate.isConnected = true)
    (hd : c.discard = w.cache.discardFault? t.envelope) :
    (t.arrived w c.reply).progress = (perform (t.delivering c)).2 ∧
      .send t.envelope :: t.closing can (t.arrived w c.reply) =
        (perform (t.delivering c)).1 ++ t.ending can c (perform (t.delivering c)).2 := by
  have ha : c.asksAgain = c.reply.isFailure := by rw [Conduct.asksAgain, hg]; rfl
  have hs : c.succeeds = c.reply.isSuccess := by rw [Conduct.succeeds, hg]; rfl
  unfold delivering ending
  rw [ha, hs]
  cases c.reply with
  | held latch reply => exact ⟨rfl, rfl⟩
  | fault f => exact ⟨rfl, rfl⟩
  | failure reason => exact ⟨rfl, rfl⟩
  | answer outcome =>
    obtain ⟨success, code⟩ := outcome
    obtain ⟨envelope, hint, kept, submission⟩ := t
    cases success with
    | false => exact ⟨rfl, rfl⟩
    | true =>
      cases kept with
      | false => exact ⟨rfl, rfl⟩
      | true =>
        simp only [arrived, if_true]
        rw [← hd]
        cases c.discard <;> exact ⟨rfl, rfl⟩

theorem meets_delivering (hg : c.gate.isConnected = true)
    (hd : c.discard = w.cache.discardFault? t.envelope) :
    Meets t can c (t.preparing can ++ [.askGate true]) (t.delivering c) (t.arrived w c.reply) := by
  obtain ⟨hp, he⟩ := perform_delivering can hg hd
  refine ⟨hp, ?_⟩
  rw [effects, opening_arrived, ← he]
  simp only [List.append_assoc, List.cons_append, List.nil_append]

theorem meets_asking (t : Task) (can : Capabilities) (w : Collaborators) :
    Meets t can (t.conduct w) (t.preparing can)
      (attempts [.askGate w.gate.isConnected] (.done w.gate.fault?) ++
        if w.gate.isConnected then t.delivering (t.conduct w) else []) (t.asked w) := by
  unfold asked Gate.answer
  cases hf : w.gate.fault? with
  | some fault =>
    have hg : w.gate.isConnected = true := by
      cases hw : w.gate with
      | faulty f => rfl
      | always | switch => rw [hw] at hf; cases hf
    rw [hg]
    exact ⟨rfl, List.append_assoc ..⟩
  | none =>
    cases hg : w.gate.isConnected with
    | true => exact Meets.attempts (meets_delivering hg rfl)
    | false =>
      have ha : (t.conduct w).asksAgain = true := by
        show (! w.gate.isConnected || _) = true
        rw [hg]
        rfl
      have hs : (t.conduct w).succeeds = false := by
        show (w.gate.isConnected && _) = false
        rw [hg]
        rfl
      refine ⟨rfl, ?_⟩
      show (t.preparing can ++ [.askGate false]) ++ _ = t.preparing can ++ ([.askGate false] ++
        ((if (t.conduct w).asksAgain then retrying can t.hint true else []) ++
          reporting can t.hint (t.conduct w).succeeds))
      rw [ha, hs, List.append_assoc]
      rfl

theorem meets_notifying (t : Task) (w : Collaborators) :
    Meets t (w.capabilities t.hint) (t.conduct w) t.storing
      (attempts (notifying (w.capabilities t.hint) t.hint) (.done (t.flushFault? w)) ++
        (attempts [.askGate w.gate.isConnected] (.done w.gate.fault?) ++
          if w.gate.isConnected then t.delivering (t.conduct w) else [])) (t.notified w) := by
  unfold notified
  cases hf : t.flushFault? w with
  | none => exact (meets_asking t _ w).attempts
  | some fault =>
    have hn : ∃ id, notifying (w.capabilities t.hint) t.hint = [.markFlushed id] := by
      unfold flushFault? at hf
      unfold notifying
      split at hf
      next id hh =>
        split at hf
        next hflush => exact ⟨id, by rw [hh] at hflush ⊢; exact if_pos hflush⟩
        next => cases hf
      next => cases hf
    obtain ⟨id, hn⟩ := hn
    refine ⟨by rw [hn]; rfl, ?_⟩
    rw [effects, opening, preparing, hn, List.append_assoc]
    rfl

/-- The standing of a run is where its plan leads. -/
theorem meets_plan (t : Task) (w : Collaborators) :
    Meets t (w.capabilities t.hint) (t.conduct w) [] (t.plan (w.capabilities t.hint) (t.conduct w))
      (t.started w) := by
  have hn := meets_notifying t w
  unfold plan leading started
  rw [List.append_assoc, List.append_assoc]
  by_cases hk : t.kept = true
  · have hs : t.storing = [.store t.envelope t.hint.isSome] := if_pos hk
    rw [if_pos hk]
    show Meets _ _ _ _ (attempts _ (.done (w.cache.storeFault? t.envelope)) ++ _) _
    cases w.cache.storeFault? t.envelope with
    | none => exact Meets.attempts hn
    | some fault => exact ⟨by rw [hs]; rfl, by rw [effects, opening, hs]; rfl⟩
  · have hs : t.storing = [] := if_neg hk
    rw [if_neg hk, hs]
    rw [hs] at hn
    exact hn

/-! ## Going on -/

theorem exists_progress_of_mem_leading {a : Attempt} (ha : a ∈ t.leading can c) :
    ∃ fault, a.progress = .done fault := by
  unfold leading attempts at ha
  simp only [List.mem_append, List.mem_map] at ha
  rcases ha with ⟨e, -, rfl⟩ | ⟨e, -, rfl⟩ | ⟨e, -, rfl⟩ <;> exact ⟨_, rfl⟩

theorem course_of_returned (h : Returned (t.leading can c)) (hg : c.gate.isConnected = true) :
    t.progress can c = (perform (t.delivering c)).2 ∧
      t.course can c = (t.leading can c).map Attempt.event ++
        ((perform (t.delivering c)).1 ++ t.ending can c (perform (t.delivering c)).2) := by
  have hplan : perform (t.plan can c) = ((t.leading can c).map Attempt.event ++
      (perform (t.delivering c)).1, (perform (t.delivering c)).2) := by
    rw [plan, if_pos hg, perform_append h]
  refine ⟨by rw [progress, hplan], ?_⟩
  rw [course, progress, hplan, List.append_assoc]

/-- A run that waits has come to its reply. -/
theorem of_progress_eq_waiting {held : Reply} (h : t.progress can c = .waiting held) :
    Returned (t.leading can c) ∧ c.gate.isConnected = true ∧
      perform (t.delivering c) = ([.send t.envelope], .waiting held) := by
  unfold progress plan at h
  rcases returned_or_broken (fun a ha => exists_progress_of_mem_leading ha) _ with
    hl | ⟨⟨fault, hf⟩, -⟩
  · rw [perform_append hl] at h
    split at h
    next hg =>
      refine ⟨hl, hg, ?_⟩
      cases hr : c.reply with
      | held latch reply =>
        unfold delivering at h ⊢
        rw [hr] at h ⊢
        cases h
        rfl
      | answer | failure | fault =>
        have hdone : ∀ a ∈ t.delivering c, ∃ fault, a.progress = .done fault := by
          unfold delivering attempts
          rw [hr]
          intro a ha
          rcases List.mem_cons.1 ha with rfl | ha
          · exact ⟨_, rfl⟩
          · split at ha
            · obtain ⟨e, -, rfl⟩ := List.mem_map.1 ha
              exact ⟨_, rfl⟩
            · cases ha
        obtain ⟨fault, hf⟩ := exists_perform_eq_done hdone
        rw [hf] at h
        cases h
    next => cases h
  · rw [hf] at h
    cases h

/-- With its reply, a run goes on in its course. -/
theorem resume_course {held : Reply} (side : Side) (h : t.progress can c = .waiting held)
    (hc : w.capabilities t.hint = can) :
    (t.resume side held w).1 = t.progress can (t.conductOn c held w) ∧
      ∃ u, Grows (t.place side) u w (t.resume side held w).2 ∧
        t.course can c ++ u = t.course can (t.conductOn c held w) := by
  obtain ⟨hl, hg, hd⟩ := of_progress_eq_waiting h
  have hl' : Returned (t.leading can (t.conductOn c held w)) := hl
  have hg' : (t.conductOn c held w).gate.isConnected = true := hg
  obtain ⟨hp, he⟩ := perform_delivering (t := t) (w := w) can hg' rfl
  have hs := resume_spec t side held w
  rw [hc] at hs
  obtain ⟨-, hcourse⟩ := course_of_returned hl hg
  obtain ⟨hprogress, hcourse'⟩ := course_of_returned hl' hg'
  refine ⟨?_, _, hs.grows, ?_⟩
  · rw [hs.progress, hprogress]
    exact hp
  · rw [hcourse, hcourse', hd, ← he, List.append_assoc]
    rfl

/-! ## The end of a run -/

/-- What a run that has come to its end did before the result was told, and what the result is. -/
structure Concludes (t : Task) (can : Capabilities) (c : Conduct) (fault : Option Fault)
    (before : List Event) (verdict : Bool) : Prop where
  /-- If no call breaks off, all are made, and then the hint may be told to try again. -/
  returned : fault = none → Returned (t.plan can c) ∧ before =
    (t.plan can c).map Attempt.event ++ if c.asksAgain then retrying can t.hint true else []
  /-- Nothing follows a call that breaks off. -/
  broken : ∀ f, fault = some f → ∃ first event rest,
    t.plan can c = first ++ ⟨event, .done (some f)⟩ :: rest ∧ Returned first ∧
      before = first.map Attempt.event ++ [event] ∧ verdict = false
  /-- A hint is told to try again if the gate is closed or the exchange failed. -/
  retry_iff : ∀ id value, .setRetry id value ∈ before ↔ fault = none ∧ c.asksAgain = true ∧
    t.hint = some id ∧ can.retry = true ∧ value = true
  silent : ∀ id value, .setResult id value ∉ before
  /-- The server took the envelope, and discarding it did not break off. -/
  verdict_iff : verdict = true ↔
    .send t.envelope ∈ before ∧ c.reply.isSuccess = true ∧ (t.kept = true → c.discard = none)

theorem events_leading (t : Task) (can : Capabilities) (c : Conduct) :
    (t.leading can c).map Attempt.event = t.preparing can ++ [.askGate c.gate.isConnected] := by
  rw [leading, List.map_append, List.map_append, events_attempts, events_attempts, events_attempts,
    preparing, List.append_assoc]

theorem events_delivering (t : Task) (c : Conduct) :
    (t.delivering c).map Attempt.event =
      .send t.envelope :: if c.reply.isSuccess then t.discarding else [] := by
  unfold delivering
  rw [List.map_cons]
  split
  · rw [events_attempts]
  · rfl

theorem mem_events_plan {e : Event} (he : e ∈ (t.plan can c).map Attempt.event) :
    (e = .store t.envelope t.hint.isSome ∨ ∃ id, t.hint = some id ∧ e = .markFlushed id) ∨
      (∃ connected, e = .askGate connected) ∨ e = .send t.envelope ∨ e = .discard t.envelope := by
  rw [plan, List.map_append, events_leading] at he
  rcases List.mem_append.1 he with he | he
  · rcases List.mem_append.1 he with he | he
    · exact .inl (mem_preparing he)
    · exact .inr (.inl ⟨_, List.mem_singleton.1 he⟩)
  · split at he
    · rw [events_delivering] at he
      rcases List.mem_cons.1 he with he | he
      · exact .inr (.inr (.inl he))
      · split at he
        · exact .inr (.inr (.inr (mem_discarding he)))
        · cases he
    · cases he

theorem setRetry_not_mem_plan (id : HintId) (value : Bool) :
    .setRetry id value ∉ (t.plan can c).map Attempt.event := by
  intro h
  rcases mem_events_plan h with (h | ⟨_, -, h⟩) | ⟨_, h⟩ | h | h <;> cases h

theorem setResult_not_mem_plan (id : HintId) (value : Bool) :
    .setResult id value ∉ (t.plan can c).map Attempt.event := by
  intro h
  rcases mem_events_plan h with (h | ⟨_, -, h⟩) | ⟨_, h⟩ | h | h <;> cases h

theorem send_not_mem_leading : .send t.envelope ∉ (t.leading can c).map Attempt.event := by
  rw [events_leading]
  intro h
  rcases List.mem_append.1 h with h | h
  · rcases mem_preparing h with h | ⟨id, -, h⟩ <;> cases h
  · cases List.mem_singleton.1 h

/-- A plan has the envelope sent if the gate is open. -/
theorem send_mem_plan_iff :
    .send t.envelope ∈ (t.plan can c).map Attempt.event ↔ c.gate.isConnected = true := by
  rw [plan, List.map_append, List.mem_append, or_iff_right send_not_mem_leading]
  split
  next hg => simp [events_delivering, hg]
  next hg => simp [hg]

theorem setRetry_mem_retrying_iff {hint : Option HintId} {id : HintId} {value : Bool} :
    .setRetry id value ∈ retrying can hint true ↔
      hint = some id ∧ can.retry = true ∧ value = true := by
  unfold retrying
  cases hint with
  | none => simp
  | some i => cases can.retry <;> simp [eq_comm]

/-- If the server takes an envelope that is sent, and discarding it does not break off, nothing
does. -/
theorem progress_of_send_mem (hs : .send t.envelope ∈ (perform (t.plan can c)).1)
    (hr : c.reply.isSuccess = true) (hd : t.kept = true → c.discard = none) :
    t.progress can c = .done none := by
  have hdelivering : Returned (t.delivering c) := by
    have hp : c.reply.progress = .done none := by
      cases h : c.reply with
      | answer => rfl
      | failure | fault | held => rw [h] at hr; cases hr
    unfold delivering discarding
    rw [hr, hp]
    refine List.forall_mem_cons.2 ⟨rfl, ?_⟩
    intro a ha
    obtain ⟨e, he, rfl⟩ := List.mem_map.1 ha
    split at he
    next hk => rw [hd hk]
    next => cases he
  rcases returned_or_broken (fun a ha => exists_progress_of_mem_leading ha)
    (if c.gate.isConnected then t.delivering c else []) with hl | ⟨-, hsub⟩
  · have hg := send_mem_plan_iff.1 (perform_subset _ hs)
    have hp := perform_append hdelivering []
    rw [List.append_nil] at hp
    rw [(course_of_returned hl hg).1, hp]
    rfl
  · exact absurd (hsub hs) send_not_mem_leading

/-- A run in which no call breaks off. -/
theorem concludes_of_returned (h : t.progress can c = .done none) :
    t.course can c = ((t.plan can c).map Attempt.event ++
        if c.asksAgain then retrying can t.hint true else []) ++ reporting can t.hint c.succeeds ∧
      Concludes t can c none ((t.plan can c).map Attempt.event ++
        if c.asksAgain then retrying can t.hint true else []) c.succeeds := by
  obtain ⟨hr, he⟩ := perform_of_returned h
  refine ⟨by rw [course, h, he, ending, List.append_assoc],
    ⟨fun _ => ⟨hr, rfl⟩, fun f hf => (by cases hf), fun id value => ?_, fun id value hm => ?_, ?_⟩⟩
  · rw [List.mem_append, or_iff_right (setRetry_not_mem_plan id value)]
    cases c.asksAgain with
    | false => simp
    | true => simp [setRetry_mem_retrying_iff]
  · rcases List.mem_append.1 hm with hm | hm
    · exact setResult_not_mem_plan id value hm
    · split at hm
      · obtain ⟨_, -, h⟩ := mem_retrying hm
        cases h
      · cases hm
  · have hs : .send t.envelope ∈ ((t.plan can c).map Attempt.event ++
        if c.asksAgain then retrying can t.hint true else []) ↔ c.gate.isConnected = true := by
      rw [List.mem_append, send_mem_plan_iff, or_iff_left]
      intro hm
      split at hm
      · obtain ⟨_, -, h⟩ := mem_retrying hm
        cases h
      · cases hm
    rw [hs, Conduct.succeeds, Bool.and_eq_true, and_congr_right_iff]
    intro hg
    refine (and_iff_left_of_imp fun hsuccess hk => ?_).symm
    have hm : (⟨.discard t.envelope, .done c.discard⟩ : Attempt) ∈ t.plan can c := by
      simp [plan, delivering, discarding, attempts, hg, hsuccess, hk]
    cases hd : c.discard with
    | none => rfl
    | some fault =>
      rw [hd] at hm
      cases hr _ hm

/-- A run in which a call breaks off. -/
theorem concludes_of_broken {fault : Fault} (h : t.progress can c = .done (some fault)) :
    t.course can c = (perform (t.plan can c)).1 ++ reporting can t.hint false ∧
      Concludes t can c (some fault) (perform (t.plan can c)).1 false := by
  have hsub := perform_subset (t.plan can c)
  refine ⟨by rw [course, h, ending],
    ⟨fun hf => (by cases hf), fun f hf => ?_, fun id value => ?_, fun id value hm => ?_, ?_⟩⟩
  · cases hf
    obtain ⟨first, event, rest, hplan, hfirst, he⟩ := perform_of_broken h
    exact ⟨first, event, rest, hplan, hfirst, he, rfl⟩
  · refine ⟨fun hm => absurd (hsub hm) (setRetry_not_mem_plan id value), fun hm => ?_⟩
    cases hm.1
  · exact setResult_not_mem_plan id value (hsub hm)
  · refine ⟨fun hv => (by cases hv), fun ⟨hs, hr, hd⟩ => ?_⟩
    rw [progress_of_send_mem hs hr hd] at h
    cases h

/-- **The course of a run.** Whatever the collaborators do, a run does what its plan says: it stores
the envelope, notifies the hint, asks the gate, and if that is open sends the envelope and discards
it after success. While the reply is held back the run waits, and then it goes on, in a world in
which anything may have happened meanwhile. At the end the result is told, once and as the last
thing. If a call broke off, it was the last one, nothing is said about another attempt, the result is
failure, and the fault is what the run ends with. -/
theorem course_of_run (t : Task) (side : Side) (w : Collaborators) :
    let can := w.capabilities t.hint
    (t.start side w).1 = t.progress can (t.conduct w) ∧
    Grows (t.place side) (t.course can (t.conduct w)) w (t.start side w).2 ∧
    (∀ c held w', t.progress can c = .waiting held → w'.capabilities t.hint = can →
      (t.resume side held w').1 = t.progress can (t.conductOn c held w') ∧
      ∃ u, Grows (t.place side) u w' (t.resume side held w').2 ∧
        t.course can c ++ u = t.course can (t.conductOn c held w')) ∧
    ∀ c fault, t.progress can c = .done fault → ∃ before verdict,
      t.course can c = before ++ reporting can t.hint verdict ∧
        Concludes t can c fault before verdict := by
  intro can
  have hs := start_spec t side w
  have hm := meets_plan t w
  refine ⟨hs.progress.trans hm.progress, hs.grows.of_eq hm.effects,
    fun c held w' h hc => resume_course side h hc, fun c fault h => ?_⟩
  cases fault with
  | none => exact ⟨_, _, concludes_of_returned h⟩
  | some fault => exact ⟨_, _, concludes_of_broken h⟩

/-- A world whose cache breaks off every discard, and whose first reply is held back. -/
def faultyWorld : Collaborators :=
  { Transport.sampleWorld (.recording (fun _ => none) fun _ => some .other) with
    connection := ⟨[.held "latch" (.answer (.accepted 200))], .failure "reset"⟩
    hints := [Hint.flush] }

def faultyTask : Task := ⟨Transport.sampleEnvelope "sample", some 0, true, some 0⟩

/-- The reply comes, discarding the envelope breaks off, and failure is reported. -/
theorem course_of_faultyTask :
    let first := faultyTask.start .worker faultyWorld
    let held : Reply := .held "latch" (.answer (.accepted 200))
    let last := faultyTask.resume .worker held (first.2.openLatch "latch")
    first.1 = .waiting held ∧ last.1 = .done (some .other) ∧
      last.2.journal.effects 0 = [.store faultyTask.envelope true, .markFlushed 0, .askGate true,
        .send faultyTask.envelope, .discard faultyTask.envelope, .setResult 0 false] ∧
      ∃ before, last.2.journal.effects 0 = before ++ [.setResult 0 false] ∧
        ∀ id value, .setResult id value ∉ before := by
  intro first held last
  obtain ⟨hfirst, hstart, hon, hend⟩ := course_of_run faultyTask .worker faultyWorld
  let c : Conduct := ⟨none, none, .always, .answer (.accepted 200), some .other⟩
  obtain ⟨hlast, u, hresume, hcourse⟩ := hon (faultyTask.conduct faultyWorld) held
    (first.2.openLatch "latch") rfl rfl
  have heffects : last.2.journal.effects 0 = faultyTask.course Hint.flush.capabilities c := by
    rw [effects_of_grows hresume rfl]
    exact (congrArg (· ++ u) (effects_of_grows hstart rfl)).trans hcourse
  obtain ⟨before, verdict, hbefore, hc⟩ := hend c (some .other) rfl
  obtain ⟨_, _, _, _, _, _, rfl⟩ := hc.broken .other rfl
  exact ⟨hfirst, hlast, heffects, before, heffects.trans hbefore, hc.silent⟩

end Task
end Courier
