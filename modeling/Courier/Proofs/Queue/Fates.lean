import Courier.Proofs.Queue.History

/-!
# What can become of a job

`fates_of_run`: in every run of a queue, whatever its jobs and its policy do, each submitted job has
one of the five histories of `Life`; the jobs that were started, followed by those that were
cancelled, are the first of the accepted ones in their order; nothing is started after a
cancellation; and while a job runs, nothing else is started or cancelled.

The invariant `Ordered` ties the history to what is left in the queue. That jobs run one at a time
and before all cancellations is the acceptance of the history by a small automaton, `Phase`.
-/

namespace Courier.Queue

variable {J R W : Type}

/-! ## The life of a job -/

/-- The complete histories of a job. -/
inductive Life (id : Nat) : History → Prop where
  | rejected (reason : RejectReason) (outcome : Submission)
      (early : reason = .queueFull ∨ reason = .shutDown) (refused : outcome ≠ .accepted) :
      Life id [.rejected .caller id reason, .submitted id outcome]
  | waiting : Life id [.submitted id .accepted]
  | running : Life id [.submitted id .accepted, .started id]
  | ended (fault : Option Fault) :
      Life id [.submitted id .accepted, .started id, .ended id fault]
  | cancelled : Life id [.submitted id .accepted, .rejected .worker id .cancelled]

/-! ## One job at a time -/

/-- What a history leaves open: the job that runs, and whether any was cancelled. -/
structure Phase where
  running : Option Nat
  cancelling : Bool

namespace Phase

/-- Before anything happened. -/
def first : Phase := ⟨none, false⟩

/-- The phase after a happening, unless that is out of order. -/
def next (p : Phase) : Happening → Option Phase
  | .started id =>
    if p.running = none ∧ p.cancelling = false then some ⟨some id, false⟩ else none
  | .ended id _ => if p.running = some id then some { p with running := none } else none
  | .rejected .worker _ _ => if p.running = none then some { p with cancelling := true } else none
  | .rejected .caller _ _ | .submitted _ _ => some p

/-- The phase after a history, unless that is out of order. -/
def after (p : Phase) (t : History) : Option Phase := t.foldlM next p

theorem after_append (p : Phase) (t u : History) :
    p.after (t ++ u) = (p.after t).bind fun p => p.after u := List.foldlM_append

theorem after_cons (p : Phase) (e : Happening) (t : History) :
    p.after (e :: t) = (p.next e).bind fun p => p.after t := List.foldlM_cons

/-- While a job runs, nothing else is started or cancelled. -/
theorem quiet_of_running {id : Nat} {cancelling : Bool} {t u : History}
    (hp : ((⟨some id, cancelling⟩ : Phase).after (t ++ u)).isSome)
    (unfinished : ∀ fault, .ended id fault ∉ t) : t.started = [] ∧ t.cancelled = [] := by
  induction t with
  | nil => exact ⟨rfl, rfl⟩
  | cons e t ih =>
    rw [List.cons_append, after_cons] at hp
    have ht : ∀ fault, .ended id fault ∉ t := fun fault hm => unfinished fault (.tail _ hm)
    cases e with
    | started i => simp [next] at hp
    | ended i fault =>
      have hi : id ≠ i := by
        rintro rfl
        exact unfinished fault (.head _)
      simp [next, hi] at hp
    | rejected side i reason =>
      cases side with
      | worker => simp [next] at hp
      | caller => exact ih hp ht
    | submitted i outcome => exact ih hp ht

/-- After a cancellation nothing is started. -/
theorem not_started_of_cancelling {running : Option Nat} {t : History}
    (hp : ((⟨running, true⟩ : Phase).after t).isSome) : t.started = [] := by
  induction t generalizing running with
  | nil => rfl
  | cons e t ih =>
    rw [after_cons] at hp
    cases e with
    | started i => simp [next] at hp
    | ended i fault =>
      by_cases hr : running = some i
      · exact ih (by simpa [next, hr] using hp)
      · simp [next, hr] at hp
    | rejected side i reason =>
      cases side with
      | worker =>
        by_cases hr : running = none
        · exact ih (by simpa [next, hr] using hp)
        · simp [next, hr] at hp
      | caller => exact ih hp
    | submitted i outcome => exact ih hp

/-- A cancellation is remembered. -/
theorem cancelling_of_after {p p' : Phase} {t : History} (hp : p.after t = some p')
    (hc : t.cancelled ≠ [] ∨ p.cancelling = true) : p'.cancelling = true := by
  induction t generalizing p with
  | nil =>
    obtain rfl : p = p' := by simpa [after] using hp
    simpa using hc
  | cons e t ih =>
    rw [after_cons] at hp
    obtain ⟨p₁, h₁, h₂⟩ := Option.bind_eq_some_iff.1 hp
    cases e with
    | started i =>
      by_cases hr : p.running = none ∧ p.cancelling = false
      · exact ih h₂ (.inl (hc.resolve_right (by simp [hr.2])))
      · simp [next, hr] at h₁
    | ended i fault =>
      by_cases hr : p.running = some i
      · rw [next, if_pos hr, Option.some.injEq] at h₁
        subst h₁
        exact ih h₂ hc
      · simp [next, hr] at h₁
    | rejected side i reason =>
      cases side with
      | worker =>
        by_cases hr : p.running = none
        · rw [next, if_pos hr, Option.some.injEq] at h₁
          subst h₁
          exact ih h₂ (.inr rfl)
        · simp [next, hr] at h₁
      | caller =>
        obtain rfl : p = p₁ := by simpa [next] using h₁
        exact ih h₂ hc
    | submitted i outcome =>
      obtain rfl : p = p₁ := by simpa [next] using h₁
      exact ih h₂ hc

end Phase

/-! ## The invariant -/

/-- The job that the worker holds and has not started. -/
def inHand : Worker J R → List J
  | .received job | .dropping job => [job]
  | .ready | .running .. | .returned .. | .stopped | .broken _ => []

/-- The job whose run waits. -/
def inRun : Worker J R → Option J
  | .running job _ => some job
  | .ready | .received _ | .returned .. | .dropping _ | .stopped | .broken _ => none

/-- The jobs that were accepted and neither started nor handed to the policy. -/
def pending (q : Queue J R) : List J := inHand q.worker ++ q.waiting

/-- How the history of a queue hangs together with what is left in it. -/
structure Ordered (s : Watch J R W) : Prop where
  fresh : ∀ id, s.submitted ≤ id → s.history.ofJob id = []
  life : ∀ id, id < s.submitted → Life id (s.history.ofJob id)
  waits : ∀ job ∈ s.queue.pending, s.history.ofJob job.1 = [.submitted job.1 .accepted]
  runs : ∀ job ∈ inRun s.queue.worker,
    s.history.ofJob job.1 = [.submitted job.1 .accepted, .started job.1]
  fifo : s.history.accepted =
    s.history.started ++ s.history.cancelled ++ s.queue.pending.map Prod.fst
  increasing : s.history.accepted.Pairwise (· < ·)
  phase : ∃ p, Phase.first.after s.history = some p ∧
    p.running = (inRun s.queue.worker).map Prod.fst ∧
      (p.cancelling = true → s.queue.cancelled = true)
  dropping : ∀ job, s.queue.worker = .dropping job → s.queue.cancelled = true

theorem ordered_begin (capacity : Nat) (w : W) :
    Ordered (Watch.begin capacity w : Watch J R W) where
  fresh _ _ := rfl
  life _ hid := absurd hid (Nat.not_lt_zero _)
  waits _ hj := by cases hj
  runs _ hj := by cases hj
  fifo := rfl
  increasing := .nil
  phase := ⟨.first, rfl, rfl, fun hc => by cases hc⟩
  dropping _ hw := by cases hw

namespace Ordered

variable {s : Watch J R W}

theorem lt_of_ofJob (ho : Ordered s) {id : Nat} (hid : s.history.ofJob id ≠ []) :
    id < s.submitted :=
  Nat.lt_of_not_le fun hle => hid (ho.fresh id hle)

theorem pending_nodup (ho : Ordered s) : (s.queue.pending.map Prod.fst).Nodup := by
  have ha : s.history.accepted.Nodup := ho.increasing.imp Nat.ne_of_lt
  rw [ho.fifo] at ha
  exact (List.nodup_append.1 ha).2.1

theorem accepted_lt (ho : Ordered s) {id : Nat} (hid : id ∈ s.history.accepted) :
    id < s.submitted := by
  apply ho.lt_of_ofJob
  obtain ⟨e, he, hid⟩ := List.mem_filterMap.1 hid
  exact List.ne_nil_of_mem (List.mem_filter.2 ⟨he, by simpa using Happening.job_of_accepted? hid⟩)

/-- Nothing of the history of another job changes with what happens to one. -/
theorem ofJob_append_of_ne (t u : History) {id : Nat} (hu : ∀ e ∈ u, e.job ≠ id) :
    (t ++ u).ofJob id = t.ofJob id := by
  rw [History.ofJob_append]
  have hn : u.ofJob id = [] := List.filter_eq_nil_iff.2 fun e he => by simpa using hu e he
  rw [hn, List.append_nil]

/-- A change that touches neither the jobs in the queue nor the history, and takes back no
cancellation. -/
theorem of_same (ho : Ordered s) {s' : Watch J R W} (hs : s'.submitted = s.submitted)
    (ht : s'.history = s.history) (hq : s'.queue.pending = s.queue.pending)
    (hr : inRun s'.queue.worker = inRun s.queue.worker)
    (hc : s.queue.cancelled = true → s'.queue.cancelled = true)
    (hd : ∀ job, s'.queue.worker = .dropping job → s'.queue.cancelled = true) : Ordered s' where
  fresh := by rw [hs, ht]; exact ho.fresh
  life := by rw [hs, ht]; exact ho.life
  waits := by rw [hq, ht]; exact ho.waits
  runs := by rw [hr, ht]; exact ho.runs
  fifo := by rw [hq, ht]; exact ho.fifo
  increasing := by rw [ht]; exact ho.increasing
  phase := by
    obtain ⟨p, hp, hpr, hpc⟩ := ho.phase
    exact ⟨p, by rw [ht]; exact hp, by rw [hr]; exact hpr, fun h => hc (hpc h)⟩
  dropping := hd

/-- Something happens to the job `id` alone. What is left to show is about that job, and about the
order of things. -/
theorem append (ho : Ordered s) {s' : Watch J R W} (id : Nat) (u : History)
    (hu : ∀ e ∈ u, e.job = id) (ht : s'.history = s.history ++ u)
    (hs : ∀ i, i < s'.submitted ↔ i < s.submitted ∨ i = id)
    (hl : Life id (s.history.ofJob id ++ u))
    (hw : ∀ job ∈ s'.queue.pending, job.1 ≠ id ∧ job ∈ s.queue.pending ∨
      job.1 = id ∧ s.history.ofJob id ++ u = [.submitted id .accepted])
    (hr : ∀ job ∈ inRun s'.queue.worker, job.1 ≠ id ∧ job ∈ inRun s.queue.worker ∨
      job.1 = id ∧ s.history.ofJob id ++ u = [.submitted id .accepted, .started id])
    (hf : s'.history.accepted =
      s'.history.started ++ s'.history.cancelled ++ s'.queue.pending.map Prod.fst)
    (hi : s'.history.accepted.Pairwise (· < ·))
    (hp : ∃ p, Phase.first.after s'.history = some p ∧
      p.running = (inRun s'.queue.worker).map Prod.fst ∧
        (p.cancelling = true → s'.queue.cancelled = true))
    (hd : ∀ job, s'.queue.worker = .dropping job → s'.queue.cancelled = true) : Ordered s' := by
  have same : ∀ i, i ≠ id → s'.history.ofJob i = s.history.ofJob i := by
    intro i hne
    rw [ht]
    exact ofJob_append_of_ne _ _ fun e he hei => hne (hei.symm.trans (hu e he))
  have own : s'.history.ofJob id = s.history.ofJob id ++ u := by
    rw [ht, History.ofJob_append]
    congr 1
    exact List.filter_eq_self.2 fun e he => by simpa using hu e he
  refine ⟨?_, ?_, ?_, ?_, hf, hi, hp, hd⟩
  · intro i hle
    have hn : ¬ (i < s.submitted ∨ i = id) := fun h => absurd ((hs i).2 h) (Nat.not_lt.2 hle)
    rw [same i fun h => hn (.inr h)]
    exact ho.fresh i (Nat.not_lt.1 fun h => hn (.inl h))
  · intro i hlt
    by_cases hi : i = id
    · subst hi
      rw [own]
      exact hl
    · rw [same i hi]
      exact ho.life i (((hs i).1 hlt).resolve_right hi)
  · intro job hj
    obtain ⟨hne, hj⟩ | ⟨rfl, ho'⟩ := hw job hj
    · rw [same _ hne]
      exact ho.waits job hj
    · rw [own, ho']
  · intro job hj
    obtain ⟨hne, hj⟩ | ⟨rfl, ho'⟩ := hr job hj
    · rw [same _ hne]
      exact ho.runs job hj
    · rw [own, ho']

end Ordered

/-! ## The callers -/

namespace Ordered

variable {h : Handler J R W} {s : Watch J R W}

theorem ne_of_pending (ho : Ordered s) {job : Nat × J} (hj : job ∈ s.queue.pending) :
    job.1 ≠ s.submitted := by
  have hlt : job.1 < s.submitted := ho.lt_of_ofJob (by rw [ho.waits job hj]; simp)
  omega

theorem ne_of_inRun (ho : Ordered s) {job : Nat × J} (hj : job ∈ inRun s.queue.worker) :
    job.1 ≠ s.submitted := by
  have hlt : job.1 < s.submitted := ho.lt_of_ofJob (by rw [ho.runs job hj]; simp)
  omega

theorem accept (ho : Ordered s) (job : J) :
    Ordered
      { queue := { s.queue with
          occupied := s.queue.occupied + 1
          waiting := s.queue.waiting ++ [(s.submitted, job)] }
        world := ⟨s.world.world, s.history ++ [.submitted s.submitted .accepted]⟩
        submitted := s.submitted + 1 } := by
  refine ho.append s.submitted [.submitted s.submitted .accepted]
    (by simp [Happening.job]) rfl (fun i => by simp only; omega) ?_ ?_ ?_ ?_ ?_ ?_ ho.dropping
  · rw [ho.fresh _ (Nat.le_refl _)]
    exact .waiting
  · intro j hj
    simp only [pending, ← List.append_assoc, List.mem_append, List.mem_singleton] at hj
    obtain hj | rfl := hj
    · have hj : j ∈ s.queue.pending := List.mem_append.2 hj
      exact .inl ⟨ho.ne_of_pending hj, hj⟩
    · exact .inr ⟨rfl, by rw [ho.fresh _ (Nat.le_refl _)]; rfl⟩
  · intro j hj
    exact .inl ⟨ho.ne_of_inRun hj, hj⟩
  · show History.accepted (s.history ++ _) =
      History.started (s.history ++ _) ++ History.cancelled (s.history ++ _) ++ _
    simp [ho.fifo, pending]
  · show (History.accepted (s.history ++ _)).Pairwise (· < ·)
    rw [History.accepted_append, List.pairwise_append]
    refine ⟨ho.increasing, by simp, fun a ha b hb => ?_⟩
    obtain rfl : b = s.submitted := by simpa using hb
    exact ho.accepted_lt ha
  · obtain ⟨p, hp, hpr, hpc⟩ := ho.phase
    refine ⟨p, ?_, hpr, hpc⟩
    show Phase.first.after (s.history ++ _) = some p
    rw [Phase.after_append, hp]
    rfl

theorem refuse (ho : Ordered s) {reason : RejectReason} {outcome : Submission} (world : W)
    (early : reason = .queueFull ∨ reason = .shutDown) (refused : outcome ≠ .accepted) :
    Ordered
      { queue := s.queue
        world := ⟨world, s.history ++ [.rejected .caller s.submitted reason,
          .submitted s.submitted outcome]⟩
        submitted := s.submitted + 1 } := by
  have hacc : History.accepted [.rejected .caller s.submitted reason,
      .submitted s.submitted outcome] = [] := by
    cases outcome with
    | accepted => exact absurd rfl refused
    | rejected => rfl
    | broken fault => rfl
  refine ho.append s.submitted
    [.rejected .caller s.submitted reason, .submitted s.submitted outcome]
    (by simp [Happening.job]) rfl (fun i => by simp only; omega) ?_ ?_ ?_ ?_ ?_ ?_ ho.dropping
  · rw [ho.fresh _ (Nat.le_refl _)]
    exact .rejected reason outcome early refused
  · intro j hj
    exact .inl ⟨ho.ne_of_pending hj, hj⟩
  · intro j hj
    exact .inl ⟨ho.ne_of_inRun hj, hj⟩
  · show History.accepted (s.history ++ _) = _
    rw [History.accepted_append, hacc, List.append_nil, ho.fifo]
    simp [Watch.history]
  · show (History.accepted (s.history ++ _)).Pairwise (· < ·)
    rw [History.accepted_append, hacc, List.append_nil]
    exact ho.increasing
  · obtain ⟨p, hp, hpr, hpc⟩ := ho.phase
    refine ⟨p, ?_, hpr, hpc⟩
    show Phase.first.after (s.history ++ _) = some p
    rw [Phase.after_append, hp]
    rfl

theorem shutDown (ho : Ordered s) :
    Ordered { s with
      queue := (s.queue.shutDown (watch h) s.world).1
      world := (s.queue.shutDown (watch h) s.world).2 } := by
  unfold Queue.shutDown
  split
  · exact ho.of_same rfl rfl rfl rfl id ho.dropping
  · exact ho

theorem cancel (ho : Ordered s) : Ordered { s with queue.cancelled := true } :=
  ho.of_same rfl rfl rfl rfl (fun _ => rfl) fun _ _ => rfl

theorem call (ho : Ordered s) (c : Call J) : Ordered (s.move h (.call c)) := by
  cases c with
  | submit job =>
    cases hr : s.queue.refusal? with
    | none =>
      rw [Watch.move_submit_of_refusal?_eq_none hr]
      exact ho.accept job
    | some reason =>
      obtain ⟨fault, world, hm⟩ := Watch.move_submit_of_refusal?_eq_some (h := h) hr job
      rw [hm]
      exact ho.refuse world (refusal?_eq_some hr) (refused_ne_accepted fault)
  | askIdle => exact ho
  | askTerminated => exact ho
  | shutDown => exact ho.shutDown
  | shutDownNow => exact ho.cancel.shutDown

/-! ## The worker -/

theorem ne_of_pending_eq_cons (ho : Ordered s) {job : Nat × J} {more : List (Nat × J)}
    (hp : s.queue.pending = job :: more) : ∀ j ∈ more, j.1 ≠ job.1 := by
  have hn := ho.pending_nodup
  rw [hp, List.map_cons, List.nodup_cons] at hn
  intro j hj he
  exact hn.1 (he ▸ List.mem_map_of_mem hj)

theorem not_cancelled (ho : Ordered s) (hc : s.queue.cancelled = false) :
    s.history.cancelled = [] := by
  obtain ⟨p, hp, -, hpc⟩ := ho.phase
  by_contra hne
  have := hpc (Phase.cancelling_of_after hp (.inl hne))
  rw [hc] at this
  cases this

theorem lt_submitted_iff (ho : Ordered s) {id : Nat} (hid : s.history.ofJob id ≠ []) (i : Nat) :
    i < s.submitted ↔ i < s.submitted ∨ i = id :=
  ⟨.inl, fun hi => hi.elim (fun h => h) fun he => he ▸ ho.lt_of_ofJob hid⟩

/-- A run is started, and perhaps ends at once. -/
theorem start (ho : Ordered s) {job : Nat × J} (hw : s.queue.worker = .received job)
    (hc : s.queue.cancelled = false) (progress : Progress R) (world : W) :
    Ordered { s with
      queue := s.queue.proceed job progress
      world := ⟨world, s.history ++ .started job.1 :: endOf job.1 progress⟩ } := by
  have hpend : s.queue.pending = job :: s.queue.waiting := by simp [pending, hw, inHand]
  have hlife : s.history.ofJob job.1 = [.submitted job.1 .accepted] :=
    ho.waits job (by rw [hpend]; exact .head _)
  have hwait : (s.queue.proceed job progress).pending = s.queue.waiting := by
    cases progress <;> rfl
  refine ho.append job.1 (.started job.1 :: endOf job.1 progress) ?_ rfl
    (ho.lt_submitted_iff (by rw [hlife]; simp)) ?_ ?_ ?_ ?_ ?_ ?_ ?_
  · intro e he
    obtain rfl | he := List.mem_cons.1 he
    · rfl
    · exact job_of_mem_endOf he
  · rw [hlife]
    cases progress with
    | done fault => exact .ended fault
    | waiting rest => exact .running
  · intro j hj
    rw [hwait] at hj
    exact .inl ⟨ho.ne_of_pending_eq_cons hpend j hj, by rw [hpend]; exact .tail _ hj⟩
  · intro j hj
    cases progress with
    | done fault => cases hj
    | waiting rest =>
      obtain rfl : job = j := by simpa [inRun, proceed] using hj
      exact .inr ⟨rfl, by rw [hlife]; rfl⟩
  · show History.accepted (s.history ++ .started job.1 :: endOf job.1 progress) =
      History.started (s.history ++ .started job.1 :: endOf job.1 progress) ++
        History.cancelled (s.history ++ .started job.1 :: endOf job.1 progress) ++ _
    simp [hwait, ho.fifo, hpend, ho.not_cancelled hc]
  · show (History.accepted (s.history ++ .started job.1 :: endOf job.1 progress)).Pairwise _
    simpa using ho.increasing
  · obtain ⟨p, hp, hpr, hpc⟩ := ho.phase
    have hr : p.running = none := by rw [hpr, hw]; rfl
    have hn : p.cancelling = false := by
      rw [hc] at hpc
      simpa using hpc
    have hp' : Phase.first.after (s.history ++ .started job.1 :: endOf job.1 progress) =
        (⟨some job.1, false⟩ : Phase).after (endOf job.1 progress) := by
      rw [Phase.after_append, hp, Option.bind_some, Phase.after_cons, Phase.next,
        if_pos ⟨hr, hn⟩, Option.bind_some]
    refine ⟨⟨(inRun (s.queue.proceed job progress).worker).map Prod.fst, false⟩, hp'.trans ?_, rfl,
      fun h => by cases h⟩
    cases progress with
    | done fault => simp [Phase.after, Phase.next, endOf, inRun, proceed]
    | waiting rest => rfl
  · intro j hj
    cases progress <;> cases hj

theorem resume (ho : Ordered s) {job : Nat × J} {rest : R}
    (hw : s.queue.worker = .running job rest) (progress : Progress R) (world : W) :
    Ordered { s with
      queue := s.queue.proceed job progress
      world := ⟨world, s.history ++ endOf job.1 progress⟩ } := by
  have hpend : s.queue.pending = s.queue.waiting := by simp [pending, hw, inHand]
  have hlife : s.history.ofJob job.1 = [.submitted job.1 .accepted, .started job.1] :=
    ho.runs job (by rw [hw]; rfl)
  have hne : ∀ j ∈ s.queue.waiting, j.1 ≠ job.1 ∧ j ∈ s.queue.pending := by
    intro j hj
    rw [← hpend] at hj
    refine ⟨fun he => ?_, hj⟩
    have hd := ho.waits j hj
    rw [he, hlife] at hd
    simp at hd
  cases progress with
  | waiting rest' =>
    refine ho.of_same rfl (List.append_nil _) hpend.symm ?_ id fun j hj => by cases hj
    rw [hw]
    rfl
  | done fault =>
    refine ho.append job.1 [.ended job.1 fault] (by simp [Happening.job]) rfl
      (ho.lt_submitted_iff (by rw [hlife]; simp)) ?_ (fun j hj => .inl (hne j hj))
      (fun j hj => by cases hj) ?_ ?_ ?_ fun j hj => by cases hj
    · rw [hlife]
      exact .ended fault
    · show History.accepted (s.history ++ [.ended job.1 fault]) =
        History.started (s.history ++ [.ended job.1 fault]) ++
          History.cancelled (s.history ++ [.ended job.1 fault]) ++ s.queue.waiting.map Prod.fst
      simp [ho.fifo, hpend]
    · show (History.accepted (s.history ++ [.ended job.1 fault])).Pairwise _
      simpa using ho.increasing
    · obtain ⟨p, hp, hpr, hpc⟩ := ho.phase
      have hr : p.running = some job.1 := by rw [hpr, hw]; rfl
      refine ⟨{ p with running := none }, ?_, rfl, hpc⟩
      show Phase.first.after (s.history ++ [.ended job.1 fault]) = _
      rw [Phase.after_append, hp, Option.bind_some, Phase.after_cons, Phase.next, if_pos hr]
      rfl

/-- The policy is called for a job that was dropped. -/
theorem reject (ho : Ordered s) {job : Nat × J} (hw : s.queue.worker = .dropping job)
    {worker : Worker (Nat × J) R} (hand : inHand worker = []) (run : inRun worker = none) (world : W) :
    Ordered { s with
      queue := { s.queue with worker }
      world := ⟨world, s.history ++ [.rejected .worker job.1 .cancelled]⟩ } := by
  have hpend : s.queue.pending = job :: s.queue.waiting := by simp [pending, hw, inHand]
  have hlife : s.history.ofJob job.1 = [.submitted job.1 .accepted] :=
    ho.waits job (by rw [hpend]; exact .head _)
  have hwait : pending { s.queue with worker } = s.queue.waiting := by simp [pending, hand]
  refine ho.append job.1 [.rejected .worker job.1 .cancelled]
    (by simp [Happening.job]) rfl (ho.lt_submitted_iff (by rw [hlife]; simp)) ?_ ?_
    (fun j hj => by rw [run] at hj; cases hj) ?_ ?_ ?_ fun _ _ => ho.dropping job hw
  · rw [hlife]
    exact .cancelled
  · intro j hj
    rw [hwait] at hj
    exact .inl ⟨ho.ne_of_pending_eq_cons hpend j hj, by rw [hpend]; exact .tail _ hj⟩
  · show History.accepted (s.history ++ _) =
      History.started (s.history ++ _) ++ History.cancelled (s.history ++ _) ++ _
    simp [hwait, ho.fifo, hpend]
  · show (History.accepted (s.history ++ _)).Pairwise _
    simpa using ho.increasing
  · obtain ⟨p, hp, hpr, hpc⟩ := ho.phase
    have hr : p.running = none := by rw [hpr, hw]; rfl
    refine ⟨{ p with cancelling := true }, ?_, by rw [run]; exact hr, fun _ => ho.dropping job hw⟩
    show Phase.first.after (s.history ++ _) = _
    rw [Phase.after_append, hp, Option.bind_some, Phase.after_cons, Phase.next, if_pos hr]
    rfl

theorem work (ho : Ordered s) : Ordered (s.move h .work) := by
  cases hs : s.queue.step (watch h) s.world with
  | none =>
    rw [Watch.move_work_of_step_eq_none hs]
    exact ho
  | some p =>
    obtain ⟨q', w'⟩ := p
    rw [Watch.move_work_of_step hs]
    cases acts_of_step hs with
    | receive job more ready waiting =>
      refine ho.of_same rfl rfl ?_ ?_ id fun j hj => by cases hj
      · simp [pending, inHand, ready, waiting]
      · simp [inRun, ready]
    | stop ready waiting closed =>
      refine ho.of_same rfl rfl ?_ ?_ id fun j hj => by cases hj
      · simp [pending, inHand, ready]
      · simp [inRun, ready]
    | drop job received cancelled =>
      refine ho.of_same rfl rfl ?_ ?_ id fun _ _ => cancelled
      · simp [pending, inHand, received, release]
      · simp [inRun, received]
    | start job received kept => exact ho.start received kept _ _
    | resume job rest running free => exact ho.resume running _ _
    | finish job fault returned =>
      refine ho.of_same rfl ?_ ?_ ?_ id fun j hj => by cases hj
      · cases fault <;> rfl
      · simp [pending, inHand, returned, release]
      · simp [inRun, returned]
    | dispose job dropping whole => exact ho.reject dropping rfl rfl _
    | breakOff job fault dropping broken => exact ho.reject dropping rfl rfl _

theorem move (ho : Ordered s) (m : Move J W) : Ordered (s.move h m) := by
  cases m with
  | call c => exact ho.call c
  | work => exact ho.work
  | change f => exact ho.of_same rfl rfl rfl rfl id ho.dropping

end Ordered

theorem ordered_run (h : Handler J R W) (capacity : Nat) (w : W) (moves : List (Move J W)) :
    Ordered ((Watch.begin capacity w).run h moves) :=
  Watch.run_induction (ordered_begin capacity w) (fun _ m ho => ho.move m) moves

/-! ## Fates -/

/-- **Fates.** Whatever its jobs and its policy do, in every run of a queue each submitted job is
rejected by its caller, or waits, or is started and perhaps ends, or is cancelled by the worker, and
each of these happens once. Jobs are started and then cancelled in the order in which they were
accepted, nothing is started after a cancellation, and nothing is started or cancelled while a job
runs. -/
theorem fates_of_run (h : Handler J R W) (capacity : Nat) (w : W) (moves : List (Move J W)) :
    let s := (Watch.begin capacity w).run h moves
    (∀ id, s.submitted ≤ id → s.history.ofJob id = []) ∧
    (∀ id, id < s.submitted → Life id (s.history.ofJob id)) ∧
    s.history.started ++ s.history.cancelled <+: s.history.accepted ∧
    (∀ t u, s.history = t ++ u → History.cancelled t ≠ [] → History.started u = []) ∧
    ∀ t u v id, s.history = t ++ .started id :: (u ++ v) → (∀ fault, .ended id fault ∉ u) →
      History.started u = [] ∧ History.cancelled u = [] := by
  intro s
  have ho : Ordered s := ordered_run h capacity w moves
  obtain ⟨p, hp, -, -⟩ := ho.phase
  refine ⟨ho.fresh, ho.life, ⟨_, ho.fifo.symm⟩, ?_, ?_⟩
  · intro t u hs hc
    rw [hs, Phase.after_append] at hp
    obtain ⟨⟨running, cancelling⟩, h₁, h₂⟩ := Option.bind_eq_some_iff.1 hp
    obtain rfl : cancelling = true := Phase.cancelling_of_after h₁ (.inl hc)
    exact Phase.not_started_of_cancelling (Option.isSome_of_eq_some h₂)
  · intro t u v id hs unfinished
    rw [hs, Phase.after_append] at hp
    obtain ⟨p₁, -, h₂⟩ := Option.bind_eq_some_iff.1 hp
    rw [Phase.after_cons] at h₂
    obtain ⟨p₂, h₃, h₄⟩ := Option.bind_eq_some_iff.1 h₂
    obtain rfl : p₂ = ⟨some id, false⟩ := by
      rw [Phase.next] at h₃
      split_ifs at h₃
      exact (Option.some.inj h₃).symm
    exact Phase.quiet_of_running (Option.isSome_of_eq_some h₄) unfinished

end Courier.Queue
