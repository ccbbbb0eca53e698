import Courier.Proofs.Transport.Balance
import Mathlib.Data.List.Basic

/-!
# Whom a hint is told something for

`Attributed journal owners` says that whatever a hint was told, it was told for a submission that this
hint was attached to, where `owners` are the hints of the submissions in order. Every move keeps this
(`Scene.Balanced.attributed_move`), and so it holds in every run from a world in which no hint was
told anything (`attributed_of_run`). What a hint was told can then be read off the effects of its one
submission (`filterMap_of_attributed`).
-/

namespace Courier

/-- The hint that is told something. -/
def Event.hint? : Event → Option HintId
  | .setRetry id _ | .setResult id _ | .markFlushed id => some id
  | .log _ | .store .. | .discard _ | .askGate _ | .send _ => none

/-- If something is told to a hint, it is this one. -/
def Event.Tells (e : Event) (hint : Option HintId) : Prop := ∀ id, e.hint? = some id → hint = some id

theorem Event.effect?_of_hint? {e : Event} {id : HintId} (he : e.hint? = some id) :
    e.effect? = some e := by
  cases e <;> cases he <;> rfl

theorem Event.eq_of_effect? {e e' : Event} (he : e.effect? = some e') : e = e' := by
  cases e <;> cases he <;> rfl

/-- Lines that tell no hint anything. -/
def Journal.Mute (journal : Journal) : Prop := ∀ l ∈ journal, l.event.hint? = none

namespace Transport

open Collaborators

variable {s s' : Scene} {w w' w'' : Collaborators} {owners : List (Option HintId)}

/-! ## What is told by effects -/

theorem tells_of_hint?_eq_none {e : Event} (he : e.hint? = none) (hint : Option HintId) :
    e.Tells hint := by
  intro id h
  rw [he] at h
  cases h

theorem tells_reporting {can : Capabilities} {hint : Option HintId} {value : Bool} {e : Event}
    (he : e ∈ reporting can hint value) : e.Tells hint := by
  obtain ⟨id, rfl, rfl⟩ := mem_reporting he
  exact fun _ h => h

theorem tells_retrying {can : Capabilities} {hint : Option HintId} {value : Bool} {e : Event}
    (he : e ∈ retrying can hint value) : e.Tells hint := by
  obtain ⟨id, rfl, rfl⟩ := mem_retrying he
  exact fun _ h => h

theorem tells_discarding {t : Task} {e : Event} (he : e ∈ t.discarding) (hint : Option HintId) :
    e.Tells hint :=
  tells_of_hint?_eq_none (by rw [Task.mem_discarding he]; rfl) hint

theorem tells_opening {t : Task} {can : Capabilities} {standing : Standing} {e : Event}
    (he : e ∈ t.opening can standing) : e.Tells t.hint := by
  rcases Task.mem_opening he with (rfl | ⟨id, hh, rfl⟩) | ⟨connected, rfl⟩ | rfl
  · exact tells_of_hint?_eq_none rfl _
  · exact fun _ h => hh.trans h
  · exact tells_of_hint?_eq_none rfl _
  · exact tells_of_hint?_eq_none rfl _

theorem tells_closing {t : Task} {can : Capabilities} {standing : Standing} {e : Event}
    (he : e ∈ t.closing can standing) : e.Tells t.hint := by
  unfold Task.closing at he
  split at he
  · cases he
  iterate 2 exact (List.mem_append.1 he).elim tells_retrying tells_reporting
  iterate 2 exact (List.mem_append.1 he).elim (tells_discarding · _) tells_reporting
  iterate 5 exact tells_reporting he

theorem tells_effects {t : Task} {can : Capabilities} {standing : Standing} {e : Event}
    (he : e ∈ t.effects can standing) : e.Tells t.hint :=
  (List.mem_append.1 he).elim tells_opening tells_closing

theorem tells_rejecting {t : Task} {can : Capabilities} {fault : Option Fault} {e : Event}
    (he : e ∈ rejecting t can fault) : e.Tells t.hint := by
  unfold rejecting at he
  rcases List.mem_append.1 he with he | he
  · split at he
    · cases he
    · exact tells_of_hint?_eq_none (by rw [List.mem_singleton.1 he]; rfl) _
  · split at he
    · exact (List.mem_append.1 he).elim tells_reporting tells_retrying
    · cases he

/-- What is done for a submission tells nothing to other hints. -/
theorem Record.tells_effects {r : Record} {n : SubmissionId} {e : Event} (he : e ∈ r.effects n) :
    e.Tells r.hint := by
  unfold Record.effects at he
  split at he
  · rcases List.mem_append.1 he with he | he
    · exact (List.mem_append.1 he).elim tells_reporting tells_retrying
    · split at he
      · exact tells_of_hint?_eq_none (by rw [List.mem_singleton.1 he]; rfl) _
      · cases he
  next left stage _ =>
    cases stage with
    | rejected reason fault => exact tells_rejecting he
    | waiting => cases he
    | dropping => cases he
    | cancelled fault => exact tells_rejecting he
    | started standing => exact Transport.tells_effects he

/-! ## What a move tells -/

/-- Only log lines were written. -/
def Hushed (w w' : Collaborators) : Prop :=
  ∃ lines : Journal, w'.journal = w.journal ++ lines ∧ lines.Mute

theorem Hushed.of_eq (h : w'.journal = w.journal) : Hushed w w' :=
  ⟨[], by rw [h, List.append_nil], fun _ hl => by cases hl⟩

theorem Hushed.trans (h : Hushed w w') (h' : Hushed w' w'') : Hushed w w'' := by
  obtain ⟨lines, hj, hm⟩ := h
  obtain ⟨lines', hj', hm'⟩ := h'
  refine ⟨lines ++ lines', by rw [hj', hj, List.append_assoc], fun l hl => ?_⟩
  exact (List.mem_append.1 hl).elim (hm l) (hm' l)

theorem hushed_logAll (p : Place) (notices : List Notice) (w : Collaborators) :
    Hushed w (w.logAll p notices) := by
  refine ⟨_, rfl, fun l hl => ?_⟩
  obtain ⟨notice, -, rfl⟩ := List.mem_map.1 hl
  rfl

theorem hushed_log (p : Place) (notice : Notice) (w : Collaborators) :
    Hushed w (w.log p notice) :=
  hushed_logAll p [notice] w

theorem hushed_sleep (nanos : Nat) (w : Collaborators) : Hushed w (w.sleep nanos) := .of_eq rfl

theorem Change.hushed (c : Change) (w : Collaborators) : Hushed w (c.apply w) := by
  cases c with
  | setGate connected =>
    exact hushed_logAll _ _ { w with gate := (w.gate.set connected).1 }
  | changeLimits change =>
    have h := hushed_logAll ⟨.caller, none⟩ (w.limits.change w.clock change).2
      { w with limits := (w.limits.change w.clock change).1 }
    exact h.trans (.of_eq rfl)
  | breakCache storeFault discardFault =>
    refine .of_eq ?_
    unfold apply
    dsimp only
    split <;> rfl
  | replaceGate gate => exact .of_eq rfl
  | pushReply reply => exact .of_eq rfl
  | openLatch latch => exact .of_eq rfl
  | sleep nanos => exact .of_eq rfl
  | breakHint hint fault => exact .of_eq rfl

theorem hushed_shutDown (q : Queue Task Reply) (w : Collaborators) :
    Hushed w (q.shutDown handler w).2 := by
  unfold Queue.shutDown
  split
  · exact hushed_log _ _ _
  · exact .of_eq rfl

theorem hushed_endFlush (t : Transport) (timeoutMs : Nat) (w : Collaborators) :
    Hushed w (t.endFlush timeoutMs w).2 := by
  unfold endFlush
  split
  · exact .of_eq rfl
  · exact (hushed_sleep _ _).trans (hushed_log _ _ _)

theorem hushed_endClose (t : Transport) (w : Collaborators) : Hushed w (t.endClose w).2 := by
  unfold Transport.endClose
  split
  · exact hushed_log _ _ _
  · exact ((hushed_sleep _ _).trans (hushed_log _ _ _)).trans (hushed_shutDown _ _)

theorem hushed_logFault (t : Task) (fault : Option Fault) (w : Collaborators) :
    Hushed w (Queue.logFault handler t fault w) := by
  cases fault with
  | none => exact .of_eq rfl
  | some fault => exact hushed_log _ _ _

/-! ## Attribution -/

/-- Whatever hints were told, they were told for submissions that they were attached to. -/
def Attributed (journal : Journal) (owners : List (Option HintId)) : Prop :=
  ∀ l ∈ journal, ∀ id, l.event.hint? = some id →
    ∃ n : SubmissionId, l.place.submission = some n ∧ owners[n]? = some (some id)

theorem Attributed.hushed (ha : Attributed w.journal owners) (h : Hushed w w') :
    Attributed w'.journal owners := by
  obtain ⟨lines, hj, hm⟩ := h
  intro l hl id hid
  rw [hj] at hl
  rcases List.mem_append.1 hl with hl | hl
  · exact ha l hl id hid
  · rw [hm l hl] at hid
    cases hid

/-- What is told to the hint of a submission is told for this submission. -/
theorem Attributed.grows (ha : Attributed w.journal owners) {p : Place} {u : List Event}
    (g : Grows p u w w') {n : SubmissionId} {hint : Option HintId} (hp : p.submission = some n)
    (hn : owners[n]? = some hint) (hu : ∀ e ∈ u, e.Tells hint) : Attributed w'.journal owners := by
  obtain ⟨lines, hj, hplace, hlines⟩ := g.journal
  intro l hl id hid
  rw [hj] at hl
  rcases List.mem_append.1 hl with hl | hl
  · exact ha l hl id hid
  · have he : l.event ∈ u := by
      rw [← hlines]
      exact List.mem_filterMap.2 ⟨l, hl, Event.effect?_of_hint? hid⟩
    refine ⟨n, by rw [hplace l hl]; exact hp, ?_⟩
    rw [hn, hu _ he id hid]

/-- The hints of the submissions so far. -/
def Ledger.hints (ledger : Ledger) : List (Option HintId) := ledger.map Record.hint

theorem Ledger.Has.getElem?_hints {ledger : Ledger} {t : Task} {stage : Stage}
    (h : ledger.Has t stage) :
    ∃ n : SubmissionId, t.submission = some n ∧ ledger.hints[n]? = some t.hint := by
  obtain ⟨n, r, hr, -, ht⟩ := h
  refine ⟨n, by rw [ht]; rfl, ?_⟩
  rw [hints, List.getElem?_map, hr, ht]
  rfl

theorem Attributed.task {ledger : Ledger} (ha : Attributed w.journal ledger.hints) {t : Task}
    {stage : Stage} (hh : ledger.Has t stage) {side : Side} {u : List Event}
    (g : Grows (t.place side) u w w') (hu : ∀ e ∈ u, e.Tells t.hint) :
    Attributed w'.journal ledger.hints := by
  obtain ⟨n, hs, hn⟩ := hh.getElem?_hints
  exact ha.grows g hs hn hu

namespace Scene

theorem hints_noted (s : Scene) : s.noted.hints = s.ledger.hints := by
  unfold noted
  split
  iterate 3 exact map_enter (fun _ _ => rfl) _ _ _
  iterate 4 rfl

theorem hints_run (hl : s.ledger = []) (moves : List Move) :
    (run moves s).ledger.hints = (moves.flatMap Move.sends).map Prod.snd := by
  have h := congrArg (List.map Prod.snd) (submitted_run moves s)
  rw [submitted, submitted, hl, List.map_nil, List.nil_append, List.map_map] at h
  exact h

theorem Balanced.attributed_work (hb : s.Balanced) (ha : Attributed s.world.journal s.ledger.hints) :
    Attributed s.work.world.journal s.work.ledger.hints := by
  cases hst : s.transport.queue.step handler s.world with
  | none =>
    rw [work_of_step_eq_none hst]
    exact ha
  | some r =>
    obtain ⟨q', w'⟩ := r
    rw [work_of_step hst]
    show Attributed w'.journal s.noted.hints
    rw [hints_noted]
    cases works_of_acts (Queue.acts_of_step hst) with
    | rests unstarted last noted => exact ha
    | drops t takes noted => exact ha
    | starts t takes kept noted =>
      exact ha.task (hb.placed.has_received takes.received)
        (t.start_spec .worker s.world).grows fun _ => Transport.tells_effects
    | resumes t reply tends hand noted =>
      exact ha.task (hb.placed.has_atHand hand)
        (t.resume_spec .worker reply s.world).grows fun _ => tells_closing
    | returns t fault tends returned noted => exact ha.hushed (hushed_logFault t fault s.world)
    | disposes t tends hand noted =>
      exact ha.task (hb.placed.has_atHand hand)
        (grows_reject .worker t .cancelled s.world) fun _ => tells_rejecting

theorem Balanced.attributed_move (hb : s.Balanced) (ha : Attributed s.world.journal s.ledger.hints)
    (m : Move) : Attributed (s.move m).world.journal (s.move m).ledger.hints := by
  cases m with
  | send e hint =>
    obtain ⟨-, hg⟩ := s.send_spec e hint
    have hledger : (s.move (.send e hint)).ledger.hints = s.ledger.hints ++ [hint] :=
      List.map_append
    have hlength : s.ledger.hints.length = s.world.submissions :=
      (List.length_map _).trans hb.booked.length
    have hn : (s.ledger.hints ++ [hint])[s.world.submissions]? = some hint := by
      rw [← hlength]
      exact List.getElem?_concat_length
    rw [hledger]
    refine Attributed.grows (w := numbered s.world) ?_ hg rfl hn fun _ => Record.tells_effects
    intro l hl id hid
    obtain ⟨n, hs, ho⟩ := ha l hl id hid
    exact ⟨n, hs, by rw [List.getElem?_append_left (List.getElem?_eq_some_iff.1 ho).1, ho]⟩
  | beginFlush timeoutMs => exact ha.hushed (hushed_log _ _ _)
  | endFlush timeoutMs => exact ha.hushed (hushed_endFlush _ _ _)
  | beginClose =>
    show Attributed (if s.transport.closed then s else _).world.journal
      (if s.transport.closed then s else _).ledger.hints
    split
    · exact ha
    · exact ha.hushed ((hushed_log _ _ _).trans (hushed_shutDown _ _))
  | endClose =>
    show Attributed (if s.transport.closed then _ else s).world.journal
      (if s.transport.closed then _ else s).ledger.hints
    split
    · exact ha.hushed (hushed_endClose _ _)
    · exact ha
  | work => exact hb.attributed_work ha
  | change c => exact ha.hushed (c.hushed s.world)

end Scene

/-- Whatever hints are told in a run of a transport, they are told for submissions that they were
attached to, if they were told nothing before. -/
theorem attributed_of_run {settings : TransportSettings} {limited : Bool} {t : Transport}
    (hu : Unused w) (hm : w.journal.Mute) (hs : start settings limited w = (.ok t, w'))
    (moves : List Move) :
    Attributed (Scene.run moves ⟨t, w', []⟩).world.journal
      (Scene.run moves ⟨t, w', []⟩).ledger.hints := by
  have hb := balanced_start hu hs
  have h₀ : Attributed w.journal (Ledger.hints []) := fun l hl id hid => by
    rw [hm l hl] at hid
    cases hid
  have h₁ : Attributed w'.journal (Ledger.hints []) := by
    unfold start at hs
    split at hs
    · cases hs
    · cases hs
      exact h₀.hushed (hushed_log _ _ _)
  exact (Scene.run_induction (P := fun s => s.Balanced ∧
    Attributed s.world.journal s.ledger.hints) (fun s m h => ⟨h.1.move m, h.1.attributed_move h.2 m⟩)
    ⟨hb, h₁⟩ moves).2

/-! ## One submission for each hint -/

theorem eq_of_getElem?_of_nodup {owners : List (Option HintId)} {id : HintId} {n m : Nat}
    (hd : (owners.filterMap fun o => o).Nodup) (hn : owners[n]? = some (some id))
    (hm : owners[m]? = some (some id)) : n = m := by
  have hp := List.pairwise_filterMap.1 hd
  rw [List.pairwise_iff_getElem] at hp
  obtain ⟨hn', hn⟩ := List.getElem?_eq_some_iff.1 hn
  obtain ⟨hm', hm⟩ := List.getElem?_eq_some_iff.1 hm
  rcases Nat.lt_trichotomy n m with hlt | he | hlt
  · exact absurd rfl (hp n m hn' hm' hlt id hn id hm)
  · exact he
  · exact absurd rfl (hp m n hm' hn' hlt id hm id hn)

/-- What is read off the lines that tell something to a hint can be read off the effects of its one
submission. -/
theorem filterMap_of_attributed {α : Type} {f : Event → Option α} {journal : Journal}
    {n : SubmissionId} {id : HintId} (ha : Attributed journal owners)
    (hf : ∀ e, (f e).isSome → e.hint? = some id) (hn : owners[n]? = some (some id))
    (hd : (owners.filterMap fun o => o).Nodup) :
    (journal.filterMap fun l => f l.event) = (journal.effects n).filterMap f := by
  have own (l : Entry) (hl : l ∈ journal) (hs : (f l.event).isSome) :
      l.place.submission = some n := by
    obtain ⟨m, hm, ho⟩ := ha l hl id (hf _ hs)
    rw [hm, eq_of_getElem?_of_nodup hd ho hn]
  unfold Journal.effects
  rw [List.filterMap_filterMap, List.filterMap_filter]
  refine List.filterMap_congr fun l hl => ?_
  cases he : f l.event with
  | none =>
    split
    · cases hx : l.event.effect? with
      | none => rfl
      | some e =>
        obtain rfl := Event.eq_of_effect? hx
        exact he.symm
    · rfl
  | some a =>
    have hs : (f l.event).isSome := by rw [he]; rfl
    rw [if_pos (by simpa using own l hl hs), Event.effect?_of_hint? (hf _ hs)]
    exact he.symm

end Transport
end Courier
