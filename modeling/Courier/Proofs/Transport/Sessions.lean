import Courier.Proofs.Transport.Ledger
import Courier.Transport.Session

/-!
# Sessions are runs

What a session does to a transport and its collaborators is done by moves (`exists_run_play`), so
what holds after every run holds after every session. After every action of a session the worker has
come to a rest (`settled_turn`).
-/

namespace Courier.Transport

variable {s s' : Scene} {t : Transport} {w : Collaborators}

/-! ## Tasks are patient -/

theorem isFree_behind {opened : Latches} {latch : String} {rest : Reply} :
    ∀ {reply : Reply}, reply.behind opened = .held latch rest → latch ∉ opened
  | .held l reply, h => by
    unfold Reply.behind at h
    split at h
    · exact isFree_behind h
    next hl =>
      cases h
      exact hl
  | .answer _, h => by cases h
  | .failure _, h => by cases h
  | .fault _, h => by cases h

/-- A run that waits for a reply waits for a latch. -/
theorem not_isFree_of_arrived {reply held : Reply} {opened : Latches} {t : Task}
    (h : t.arrived w (reply.behind opened) = .held held) : held.isFree opened = false := by
  unfold Task.arrived at h
  split at h
  next latch rest hb =>
    cases h
    simpa [Reply.isFree] using isFree_behind hb
  · cases h
  · cases h
  · split at h
    · split at h <;> cases h
    · cases h

/-- The standing of a run that starts, if its reply is held back. -/
theorem arrived_of_started {t : Task} {held : Reply} (h : t.started w = .held held) :
    t.sent w = .held held := by
  unfold Task.started at h
  split at h
  · cases h
  · unfold Task.notified at h
    split at h
    · cases h
    · unfold Task.asked at h
      split at h
      · cases h
      · exact h
      · cases h

theorem held_of_progress {standing : Standing} {reply : Reply}
    (h : standing.progress = .waiting reply) : standing = .held reply := by
  cases standing <;> cases h
  rfl

theorem patient_handler : Queue.Patient handler where
  start t w reply h := by
    have c := t.start_spec .worker w
    have hs := held_of_progress (c.progress.symm.trans h)
    have hf := not_isFree_of_arrived (arrived_of_started hs)
    show reply.isFree (t.start .worker w).2.latches = false
    rw [Collaborators.latches_congr c.grows.surroundings]
    exact hf
  resume t reply w reply' h := by
    have c := t.resume_spec .worker reply w
    have hs := held_of_progress (c.progress.symm.trans h)
    show reply'.isFree (t.resume .worker reply w).2.latches = false
    rw [Collaborators.latches_congr c.grows.surroundings]
    exact not_isFree_of_arrived hs

theorem settled_turn (a : Action) (t : Transport) (w : Collaborators) (ledger : Ledger) :
    Scene.Settled ⟨(t.turn a w).2.1, (t.turn a w).2.2, ledger⟩ :=
  Queue.settled_settle patient_handler _ _

/-! ## Moves for actions -/

/-- A scene without its ledger. -/
def Scene.bare (s : Scene) : Transport × Collaborators := (s.transport, s.world)

/-- What can be reached by moves. -/
def Reaches (s : Scene) (r : Transport × Collaborators) : Prop :=
  ∃ moves, (Scene.run moves s).bare = r

theorem Reaches.refl (s : Scene) : Reaches s s.bare := ⟨[], rfl⟩

theorem Reaches.move (s : Scene) (m : Move) : Reaches s (s.move m).bare := ⟨[m], rfl⟩

theorem Reaches.trans {r r' : Transport × Collaborators} (h : Reaches s r)
    (h' : ∀ ledger, Reaches ⟨r.1, r.2, ledger⟩ r') : Reaches s r' := by
  obtain ⟨moves, rfl⟩ := h
  obtain ⟨more, hm⟩ := h' (Scene.run moves s).ledger
  refine ⟨moves ++ more, ?_⟩
  rw [← hm, Scene.run_append]
  rfl

theorem reaches_run (fuel : Nat) (t : Transport) (w : Collaborators) (ledger : Ledger) :
    Reaches ⟨t, w, ledger⟩
      ({ t with queue := (t.queue.run handler fuel w).1 }, (t.queue.run handler fuel w).2) := by
  induction fuel generalizing t w ledger with
  | zero => exact .refl _
  | succ fuel ih =>
    cases hs : t.queue.step handler w with
    | none =>
      rw [Queue.run_of_step_eq_none hs]
      exact .refl _
    | some r =>
      obtain ⟨queue, w'⟩ := r
      rw [Queue.run_succ hs]
      have h := Reaches.move ⟨t, w, ledger⟩ .work
      rw [show Scene.move ⟨t, w, ledger⟩ .work = _ from Scene.work_of_step hs] at h
      exact h.trans fun ledger => ih { t with queue } w' ledger

theorem reaches_settle (t : Transport) (w : Collaborators) (ledger : Ledger) :
    Reaches ⟨t, w, ledger⟩ (t.settle w) :=
  reaches_run t.queue.bound t w ledger

theorem reaches_flush (timeoutMs : Nat) (t : Transport) (w : Collaborators) (ledger : Ledger) :
    Reaches ⟨t, w, ledger⟩ (t.flush timeoutMs w).2 :=
  ((Reaches.move _ (.beginFlush timeoutMs)).trans fun _ => reaches_settle _ _ _).trans fun _ =>
    Reaches.move _ (.endFlush timeoutMs)

theorem reaches_beginClose (hc : ¬ t.closed = true) (w : Collaborators) (ledger : Ledger) :
    Reaches ⟨t, w, ledger⟩ (t.beginClose w) := by
  have h := Reaches.move ⟨t, w, ledger⟩ .beginClose
  rw [show Scene.move ⟨t, w, ledger⟩ .beginClose = _ from if_neg hc] at h
  exact h

theorem reaches_endClose (hc : t.closed = true) (w : Collaborators) (ledger : Ledger) :
    Reaches ⟨t, w, ledger⟩ (t.endClose w) := by
  have h := Reaches.move ⟨t, w, ledger⟩ .endClose
  rw [show Scene.move ⟨t, w, ledger⟩ .endClose = _ from if_pos hc] at h
  exact h

theorem reaches_close (t : Transport) (w : Collaborators) (ledger : Ledger) :
    Reaches ⟨t, w, ledger⟩ (t.close w) := by
  unfold close
  split
  · exact .refl _
  next hc =>
    refine ((reaches_beginClose hc w ledger).trans fun _ => reaches_settle _ _ _).trans ?_
    exact fun ledger => reaches_endClose rfl _ ledger

theorem reaches_act (a : Action) (t : Transport) (w : Collaborators) (ledger : Ledger) :
    Reaches ⟨t, w, ledger⟩ (t.act a w).2 := by
  cases a with
  | send e hint => exact Reaches.move _ (.send e hint)
  | flush timeoutMs => exact reaches_flush timeoutMs t w ledger
  | flushDefault => exact reaches_flush _ t w ledger
  | close => exact reaches_close t w ledger
  | setGate connected => exact Reaches.move _ (.change (.setGate connected))
  | pushReply reply => exact Reaches.move _ (.change (.pushReply reply))
  | openLatch latch => exact Reaches.move _ (.change (.openLatch latch))
  | changeLimits change => exact Reaches.move _ (.change (.changeLimits change))
  | sleep nanos => exact Reaches.move _ (.change (.sleep nanos))

theorem reaches_turn (a : Action) (t : Transport) (w : Collaborators) (ledger : Ledger) :
    Reaches ⟨t, w, ledger⟩ (t.turn a w).2 :=
  (reaches_act a t w ledger).trans fun _ => reaches_settle _ _ _

theorem exists_run_play (actions : List Action) (t : Transport) (w : Collaborators)
    (ledger : Ledger) :
    ∃ moves, (Scene.run moves ⟨t, w, ledger⟩).bare = (t.play actions w).2 := by
  induction actions generalizing t w ledger with
  | nil => exact Reaches.refl _
  | cons a more ih => exact (reaches_turn a t w ledger).trans fun ledger => ih _ _ ledger

end Courier.Transport
