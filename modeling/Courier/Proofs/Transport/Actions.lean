import Courier.Proofs.Transport.Places

/-!
# What actions of the worker are for tasks

`Works` lists what one action of the worker can be for the tasks: they stay where they are, the one
that was received is taken, or the one that was taken last comes further. Each case says what the
ledger notes. By `works_of_acts` there is no other case; whether disposing of a task breaks off makes
none, as the ledger notes the fault.
-/

namespace Courier.Transport

variable {s : Scene} {q q' : Queue Task Reply} {w' : Collaborators} {t : Task}

/-- The task that the worker took last, while it has to do with it. -/
def current : Worker Task Reply → Option Task
  | .running t _ | .returned t _ | .dropping t => some t
  | .ready | .received _ | .stopped | .broken _ => none

/-- The worker takes the task that it received. -/
structure Takes (q q' : Queue Task Reply) (t : Task) : Prop where
  received : q.worker = .received t
  unstarted : q'.unstarted = q.waiting
  last : ∀ u ∈ current q'.worker, u = t

/-- The worker has to do with the task that it took last, and with no other one. -/
structure Tends (q q' : Queue Task Reply) (t : Task) : Prop where
  taken : t ∈ current q.worker
  unstarted : q'.unstarted = q.unstarted
  last : ∀ u ∈ current q'.worker, u = t

theorem Takes.first (h : Takes q q' t) : q.unstarted = t :: q'.unstarted := by
  rw [h.unstarted]
  simp [Queue.unstarted, Queue.received, h.received]

theorem Takes.mem_unstarted (h : Takes q q' t) : t ∈ q.unstarted := by
  rw [h.first]
  exact List.mem_cons_self

/-- What an action of the worker is for the tasks, with the world after it. -/
inductive Works (s : Scene) (q' : Queue Task Reply) : Collaborators → Prop where
  | rests (unstarted : q'.unstarted = s.transport.queue.unstarted)
      (last : current q'.worker = current s.transport.queue.worker) (noted : s.noted = s.ledger) :
      Works s q' s.world
  | drops (t : Task) (takes : Takes s.transport.queue q' t)
      (noted : s.noted = s.ledger.enter t .dropping) : Works s q' s.world
  | starts (t : Task) (takes : Takes s.transport.queue q' t)
      (kept : s.transport.queue.cancelled = false)
      (noted : s.noted = s.ledger.enter t (.started (t.started s.world))) :
      Works s q' (t.start .worker s.world).2
  | resumes (t : Task) (reply : Reply) (tends : Tends s.transport.queue q' t)
      (hand : atHand s.transport.queue.worker = some (t, .started (.held reply)))
      (noted : s.noted =
        s.ledger.enter t (.started (t.arrived s.world (reply.behind s.world.latches)))) :
      Works s q' (t.resume .worker reply s.world).2
  | returns (t : Task) (fault : Option Fault) (tends : Tends s.transport.queue q' t)
      (returned : s.transport.queue.worker = .returned t fault) (noted : s.noted = s.ledger) :
      Works s q' (Queue.logFault handler t fault s.world)
  | disposes (t : Task) (tends : Tends s.transport.queue q' t)
      (hand : atHand s.transport.queue.worker = some (t, .dropping))
      (noted : s.noted =
        s.ledger.enter t (.cancelled (reject .worker t .cancelled s.world).1)) :
      Works s q' (reject .worker t .cancelled s.world).2

/-- The task of a run that goes on is the one that the worker took last. -/
theorem eq_of_mem_current_proceed {progress : Progress Reply} :
    ∀ u ∈ current (q.proceed t progress).worker, u = t := by
  intro u hu
  cases progress <;> exact (Option.some.inj hu).symm

open Scene in
theorem works_of_acts (ha : Queue.Acts handler s.transport.queue s.world q' w') :
    Works s q' w' := by
  have disposed {worker : Worker Task Reply} (t : Task)
      (dropping : s.transport.queue.worker = .dropping t)
      (hu : Queue.unstarted { s.transport.queue with worker } = s.transport.queue.waiting)
      (hc : current worker = none) :
      Works s { s.transport.queue with worker } (reject .worker t .cancelled s.world).2 := by
    refine .disposes t ⟨?_, ?_, ?_⟩ (by rw [dropping]; rfl) (noted_of_dropping dropping)
    · rw [dropping]
      exact rfl
    · rw [hu]
      simp [Queue.unstarted, Queue.received, dropping]
    · intro u hu
      rw [hc] at hu
      cases hu
  cases ha with
  | receive t more ready waiting =>
    refine .rests ?_ (by rw [ready]; rfl) (noted_of_ready ready)
    simp [Queue.unstarted, Queue.received, ready, waiting]
  | stop ready waiting closed =>
    refine .rests ?_ (by rw [ready]; rfl) (noted_of_ready ready)
    simp [Queue.unstarted, Queue.received, ready]
  | drop t received cancelled =>
    exact .drops t ⟨received, rfl, fun u hu => (Option.some.inj hu).symm⟩
      (noted_of_received_of_cancelled received cancelled)
  | start t received kept =>
    exact .starts t ⟨received, Queue.unstarted_proceed _ t _, eq_of_mem_current_proceed⟩ kept
      (noted_of_received_of_kept received kept)
  | resume t reply running free =>
    refine .resumes t reply ⟨by rw [running]; exact rfl, ?_, eq_of_mem_current_proceed⟩
      (by rw [running]; rfl) (noted_of_running running)
    rw [Queue.unstarted_proceed]
    simp [Queue.unstarted, Queue.received, running]
  | finish t fault returned =>
    refine .returns t fault ⟨by rw [returned]; exact rfl, ?_, fun u hu => by cases hu⟩ returned
      (noted_of_returned returned)
    simp [Queue.unstarted, Queue.received, Queue.release, returned]
  | dispose t dropping whole => exact disposed t dropping rfl rfl
  | breakOff t fault dropping broken => exact disposed t dropping rfl rfl

end Courier.Transport
