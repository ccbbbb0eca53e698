import Courier.Proofs.Queue.Worker

/-!
# Sound queues

What holds of a queue at every moment, whatever its jobs do: the slots that are taken are those of
the jobs that wait or run, a queue is terminated exactly when its worker has come to its end, and
jobs are dropped only after the queue was shut down. `Sound` is kept by every action of the worker
(`Sound.acts`) and by every call (`Sound.accept`, `Sound.shutDown`, `Sound.shutDownNow`).
-/

namespace Courier.Queue

variable {J R W : Type} {h : Handler J R W} {q q' : Queue J R} {w w' : W}

/-- The job that was received and not yet looked at. -/
def received : Worker J R → List J
  | .received job => [job]
  | .ready | .running .. | .returned .. | .dropping _ | .stopped | .broken _ => []

/-- The jobs that were accepted and not yet looked at, the oldest first. -/
def unstarted (q : Queue J R) : List J := received q.worker ++ q.waiting

@[simp]
theorem unstarted_proceed (q : Queue J R) (job : J) (progress : Progress R) :
    (q.proceed job progress).unstarted = q.waiting := by
  cases progress <;> rfl

/-- The number of slots that a run takes. -/
def busy : Worker J R → Nat
  | .running .. | .returned .. => 1
  | .ready | .received _ | .dropping _ | .stopped | .broken _ => 0

/-- Whether the worker deals with jobs that will not run. -/
def isDropping : Worker J R → Bool
  | .dropping _ | .broken _ => true
  | .ready | .received _ | .running .. | .returned .. | .stopped => false

/-- A queue whose books are in order. -/
structure Sound (q : Queue J R) : Prop where
  occupied : q.occupied = q.unstarted.length + busy q.worker
  room : q.occupied ≤ q.capacity
  running : q.state = .running ↔ q.accepting = true
  terminated : q.state = .terminated ↔ q.worker = .stopped
  stopped : q.worker = .stopped → q.waiting = [] ∧ q.accepting = false
  cancelled : q.cancelled = true → q.accepting = false
  dropping : isDropping q.worker = true → q.cancelled = true

theorem sound_create (capacity : Nat) : Sound (create capacity : Queue J R) where
  occupied := rfl
  room := Nat.zero_le _
  running := by simp [create]
  terminated := by simp [create]
  stopped hw := by cases hw
  cancelled hc := by cases hc
  dropping hd := by cases hd

theorem Acts.accepting_eq (ha : Acts h q w q' w') : q'.accepting = q.accepting := by
  cases ha with
  | start job received kept => cases (h.start job w).1 <;> rfl
  | resume job rest running free => cases (h.resume job rest w).1 <;> rfl
  | _ => rfl

theorem Acts.cancelled_eq (ha : Acts h q w q' w') : q'.cancelled = q.cancelled := by
  cases ha with
  | start job received kept => cases (h.start job w).1 <;> rfl
  | resume job rest running free => cases (h.resume job rest w).1 <;> rfl
  | _ => rfl

namespace Sound

theorem shuttingDown (hs : Sound q) (ha : q.accepting = false) (hw : q.worker ≠ .stopped) :
    q.state = .shuttingDown := by
  cases hq : q.state with
  | running => rw [hs.running.1 hq] at ha; cases ha
  | shuttingDown => rfl
  | terminated => exact absurd (hs.terminated.1 hq) hw

theorem not_terminated (hs : Sound q) (hw : q.worker ≠ .stopped) : q.state ≠ .terminated :=
  fun hq => hw (hs.terminated.1 hq)

/-- The worker goes on, with as many jobs that wait or run as slots that are taken. -/
theorem of_worker (hs : Sound q) {worker : Worker J R} {waiting : List J} {occupied : Nat}
    (ho : occupied = (received worker ++ waiting).length + busy worker)
    (hle : occupied ≤ q.occupied) (hq : q.worker ≠ .stopped) (hw : worker ≠ .stopped)
    (hd : isDropping worker = true → q.cancelled = true) :
    Sound { q with occupied, waiting, worker } where
  occupied := ho
  room := Nat.le_trans hle hs.room
  running := hs.running
  terminated := ⟨fun h => absurd h (hs.not_terminated hq), fun h => absurd h hw⟩
  stopped h := absurd h hw
  cancelled := hs.cancelled
  dropping := hd

theorem acts (hs : Sound q) (ha : Acts h q w q' w') : Sound q' := by
  have ho := hs.occupied
  cases ha with
  | receive job more ready waiting =>
    simp only [unstarted, ready, received, waiting, busy] at ho
    exact hs.of_worker (by simpa [received, busy] using ho) (Nat.le_refl _) (by simp [ready])
      (by simp) (by simp [isDropping])
  | stop ready waiting closed =>
    simp only [unstarted, ready, received, waiting, busy] at ho
    exact
      { occupied := by simpa [unstarted, received, waiting, busy] using ho
        room := hs.room
        running := by simp [closed]
        terminated := by simp
        stopped := fun _ => ⟨waiting, closed⟩
        cancelled := hs.cancelled
        dropping := by simp [isDropping] }
  | drop job received' cancelled =>
    simp only [unstarted, received', received, busy] at ho
    have hf : q.release.occupied = q.release.waiting.length := by
      show q.occupied - 1 = q.waiting.length
      simp only [ho, List.length_append, List.length_cons, List.length_nil]
      omega
    exact hs.of_worker (by simpa [received, busy] using hf) (Nat.sub_le _ _)
      (by simp [received']) (by simp) fun _ => cancelled
  | start job received' kept =>
    simp only [unstarted, received', received, busy] at ho
    cases (h.start job w).1 with
    | done fault =>
      exact hs.of_worker (by simp [received, busy] at ho ⊢; omega) (Nat.le_refl _)
        (by simp [received']) (by simp) (by simp [isDropping])
    | waiting rest =>
      exact hs.of_worker (by simp [received, busy] at ho ⊢; omega) (Nat.le_refl _)
        (by simp [received']) (by simp) (by simp [isDropping])
  | resume job rest running free =>
    simp only [unstarted, running, received, busy] at ho
    cases (h.resume job rest w).1 with
    | done fault =>
      exact hs.of_worker (by simpa [received, busy] using ho) (Nat.le_refl _)
        (by simp [running]) (by simp) (by simp [isDropping])
    | waiting rest' =>
      exact hs.of_worker (by simpa [received, busy] using ho) (Nat.le_refl _)
        (by simp [running]) (by simp) (by simp [isDropping])
  | finish job fault returned =>
    simp only [unstarted, returned, received, busy] at ho
    have hf : q.release.occupied = q.release.waiting.length := by
      show q.occupied - 1 = q.waiting.length
      simp only [ho, List.length_append, List.length_nil]
      omega
    exact hs.of_worker (by simpa [received, busy] using hf) (Nat.sub_le _ _)
      (by simp [returned]) (by simp) (by simp [isDropping])
  | dispose job dropping whole =>
    simp only [unstarted, dropping, received, busy] at ho
    exact hs.of_worker (by simpa [received, busy] using ho) (Nat.le_refl _) (by simp [dropping])
      (by simp) (by simp [isDropping])
  | breakOff job fault dropping broken =>
    simp only [unstarted, dropping, received, busy] at ho
    exact hs.of_worker (by simpa [received, busy] using ho) (Nat.le_refl _) (by simp [dropping])
      (by simp) fun _ => hs.dropping (by simp [dropping, isDropping])

/-- A job is accepted only while there is room and the queue is open. -/
theorem accept (hs : Sound q) (hr : q.refusal? = none) (job : J) :
    Sound { q with occupied := q.occupied + 1, waiting := q.waiting ++ [job] } := by
  have ready : q.accepting = true ∧ q.occupied < q.capacity := by
    unfold refusal? at hr
    split_ifs at hr with ha ho
    exact ⟨by simpa using ha, Nat.lt_of_not_le ho⟩
  exact
    { occupied := by
        have ho := hs.occupied
        simp [unstarted] at ho ⊢
        omega
      room := ready.2
      running := hs.running
      terminated := hs.terminated
      stopped := fun hw => by
        have := (hs.stopped hw).2
        rw [ready.1] at this
        cases this
      cancelled := hs.cancelled
      dropping := hs.dropping }

theorem shutDown (hs : Sound q) : Sound (q.shutDown h w).1 := by
  unfold Queue.shutDown
  split
  next ha =>
    have hr : q.state = .running := hs.running.2 ha
    exact
      { occupied := hs.occupied
        room := hs.room
        running := by simp [hr]
        terminated := by
          have hn : q.worker ≠ .stopped := fun hw => by
            have := hs.terminated.2 hw
            rw [hr] at this
            cases this
          simp [hr, hn]
        stopped := fun hw => ⟨(hs.stopped hw).1, rfl⟩
        cancelled := fun _ => rfl
        dropping := hs.dropping }
  · exact hs

theorem shutDownNow (hs : Sound q) : Sound (q.shutDownNow h w).1 := by
  unfold Queue.shutDownNow Queue.shutDown
  split
  next ha =>
    have hd : Sound (q.shutDown h w).1 := hs.shutDown
    unfold Queue.shutDown at hd
    rw [if_pos ha] at hd
    exact { hd with cancelled := fun _ => rfl, dropping := fun _ => rfl }
  next ha =>
    exact { hs with cancelled := fun _ => by simpa using ha, dropping := fun _ => rfl }

end Sound

@[simp] theorem accepting_shutDown (h : Handler J R W) (q : Queue J R) (w : W) :
    (q.shutDown h w).1.accepting = false := by
  unfold shutDown
  split
  · rfl
  next ha => simpa using ha

@[simp] theorem worker_shutDown (h : Handler J R W) (q : Queue J R) (w : W) :
    (q.shutDown h w).1.worker = q.worker := by
  unfold shutDown
  split <;> rfl

@[simp] theorem waiting_shutDown (h : Handler J R W) (q : Queue J R) (w : W) :
    (q.shutDown h w).1.waiting = q.waiting := by
  unfold shutDown
  split <;> rfl

@[simp] theorem cancelled_shutDown (h : Handler J R W) (q : Queue J R) (w : W) :
    (q.shutDown h w).1.cancelled = q.cancelled := by
  unfold shutDown
  split <;> rfl

theorem worker_shutDownNow (h : Handler J R W) (q : Queue J R) (w : W) :
    (q.shutDownNow h w).1.worker = q.worker := by
  unfold shutDownNow
  rw [worker_shutDown]

theorem waiting_shutDownNow (h : Handler J R W) (q : Queue J R) (w : W) :
    (q.shutDownNow h w).1.waiting = q.waiting := by
  unfold shutDownNow
  rw [waiting_shutDown]

end Courier.Queue
