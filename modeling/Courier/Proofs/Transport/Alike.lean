import Courier.Proofs.Transport.Twins

/-!
# Scenes that are alike

`Alike apart known s s'` says that two scenes differ at most in the replies that their connections will
give, and in what belongs to the submission `apart`, which was answered in both. A move that is made in
both keeps them alike if all others get the same replies (`Alike.move`). When one submission gets
different replies the scenes part, and are alike but for it from then on (`Alike.part`). `alike_step`
puts the two together.
-/

namespace Courier.Transport

open Collaborators

variable {apart : Option SubmissionId} {known : HintId → Prop} {s s' : Scene}
  {w w' : Collaborators} {t : Task} {ledger ledger' : Ledger}

/-! ## Scenes -/

/-- Whether a submission was given to the connection, and is over. -/
def Fate.isAnswered : Fate → Bool
  | .passed _ (.started (.ended ending)) => (Standing.ended ending).isSent
  | .dropped _ | .passed _ (.rejected ..) | .passed _ .waiting | .passed _ .dropping
  | .passed _ (.cancelled _) | .passed _ (.started (.held _)) => false

/-- Two scenes that differ at most in the replies to come, and in what became of the submission
apart when its reply came. -/
structure Alike (apart : Option SubmissionId) (known : HintId → Prop) (s s' : Scene) : Prop where
  world : Like apart known s.world s'.world
  transport : Twins apart s.transport s'.transport
  length : s'.ledger.length = s.ledger.length
  ledger : ∀ n, some n ≠ apart → s'.ledger[n]? = s.ledger[n]?
  own : ∀ b, apart = some b → ∃ (r : Record) (fate : Fate), s.ledger[b]? = some r ∧
    s'.ledger[b]? = some { r with fate } ∧ r.fate.isAnswered = true ∧ fate.isAnswered = true

/-- The reply that the worker is about to be given, and for which submission. -/
def Scene.draw? (s : Scene) : Option (SubmissionId × Reply) :=
  match s.transport.queue.worker with
  | .received t =>
    if ! s.transport.queue.cancelled && (t.started s.world).isSent then
      t.submission.map fun n => (n, s.world.connection.take.1)
    else none
  | .ready | .running .. | .returned .. | .dropping _ | .stopped | .broken _ => none

theorem Scene.draw?_of_isSent {n : SubmissionId} (hr : s.transport.queue.worker = .received t)
    (hc : s.transport.queue.cancelled = false) (hsent : (t.started s.world).isSent = true)
    (hn : t.submission = some n) : s.draw? = some (n, s.world.connection.take.1) := by
  unfold draw?
  rw [hr]
  simp [hc, hsent, hn]

theorem Ledger.getElem?_enter_congr {n : SubmissionId} (h : ledger'[n]? = ledger[n]?) (t : Task)
    (stage : Stage) : (ledger'.enter t stage)[n]? = (ledger.enter t stage)[n]? := by
  unfold Ledger.enter
  split
  · rw [List.getElem?_modify, List.getElem?_modify, h]
  · exact h

namespace Scene

theorem work_start (hr : s.transport.queue.worker = .received t)
    (hc : s.transport.queue.cancelled = false) :
    s.work = ⟨{ s.transport with queue := s.transport.queue.proceed t (t.start .worker s.world).1 },
      (t.start .worker s.world).2, s.ledger.enter t (.started (t.started s.world))⟩ := by
  simp only [work, Queue.step, noted, hr, hc]
  rfl

theorem work_resume {reply : Reply} (hr : s.transport.queue.worker = .running t reply)
    (hf : reply.isFree s.world.latches = true) :
    s.work = ⟨{ s.transport with queue :=
        s.transport.queue.proceed t (t.resume .worker reply s.world).1 },
      (t.resume .worker reply s.world).2,
      s.ledger.enter t (.started (t.arrived s.world (reply.behind s.world.latches)))⟩ := by
  have hcan : handler.canResume t reply s.world = true := hf
  simp only [work, Queue.step, noted, hr, hcan]
  rfl

theorem work_held {reply : Reply} (hr : s.transport.queue.worker = .running t reply)
    (hf : reply.isFree s.world.latches = false) : s.work = s := by
  have hcan : handler.canResume t reply s.world = false := hf
  simp only [work, Queue.step, hr, hcan]
  rfl

/-- The worker after it disposed of a task. -/
def afterReject : Option Fault → Worker Task Reply
  | none => .ready
  | some fault => .broken fault

theorem work_dispose (hr : s.transport.queue.worker = .dropping t) :
    s.work = ⟨{ s.transport with queue := { s.transport.queue with
        worker := afterReject (reject .worker t .cancelled s.world).1 } },
      (reject .worker t .cancelled s.world).2,
      s.ledger.enter t (.cancelled (reject .worker t .cancelled s.world).1)⟩ := by
  have hh : handler.reject .worker t .cancelled s.world = reject .worker t .cancelled s.world := rfl
  simp only [work, Queue.step, noted, hr, hh]
  rcases reject .worker t .cancelled s.world with ⟨_ | fault, w₁⟩ <;> rfl

end Scene

theorem reply_ne_held (h : ∀ latch rest, w.connection.take.1 ≠ .held latch rest) (latch : String)
    (rest : Reply) : w.reply ≠ .held latch rest := by
  unfold Collaborators.reply
  cases hr : w.connection.take.1 with
  | held latch reply => exact absurd hr (h latch reply)
  | answer outcome => exact fun h => by cases h
  | failure reason => exact fun h => by cases h
  | fault fault => exact fun h => by cases h

theorem like_logFault (own : t.submission = apart) (some : apart.isSome = true)
    (fault : Option Fault) (hc : w.cache.isOnDisk = false) :
    Like apart known w (Queue.logFault handler t fault w) := by
  obtain ⟨b, rfl⟩ := Option.isSome_iff_exists.1 some
  cases fault with
  | none => exact .refl _ _ w
  | some fault => exact (grows_log (t.place .worker) _ w).like own hc fun _ _ => rfl

/-- Where the task apart is answered in two ledgers, their records of it are the same but for its
fate. -/
theorem exists_record_of_ended {n : SubmissionId} {ending ending' : Ending}
    (hh : ledger.Has t .waiting) (hs : t.submission = some n)
    (hl : ∀ m : SubmissionId, ledger'[m]? = ledger[m]?) (hsent : (Standing.ended ending).isSent = true)
    (hsent' : (Standing.ended ending').isSent = true) :
    ∃ (r : Record) (fate : Fate),
      (ledger.enter t (.started (.ended ending)))[n]? = some r ∧
      (ledger'.enter t (.started (.ended ending')))[n]? = some { r with fate } ∧
      r.fate.isAnswered = true ∧ fate.isAnswered = true := by
  obtain ⟨r, hrecord, -⟩ := hh.exists_record hs
  exact ⟨_, _, Ledger.getElem?_enter_self hs hrecord _,
    Ledger.getElem?_enter_self hs ((hl n).trans hrecord) _, hsent, hsent'⟩

namespace Alike

theorem quiet {tr tr' : Transport} (h : Alike apart known s s') (hw : Like apart known w w')
    (ht : Twins apart tr tr') : Alike apart known ⟨tr, w, s.ledger⟩ ⟨tr', w', s'.ledger⟩ :=
  ⟨hw, ht, h.length, h.ledger, h.own⟩

theorem beginFlush (h : Alike apart known s s') (timeoutMs : Nat) :
    Alike apart known (s.move (.beginFlush timeoutMs)) (s'.move (.beginFlush timeoutMs)) := by
  have hp : s'.transport.pending = s.transport.pending := h.transport.occupied
  show Alike apart known ⟨_, s.world.log here _, _⟩ ⟨_, s'.world.log here _, _⟩
  rw [hp]
  exact h.quiet (h.world.log _ _) h.transport

theorem endFlush (h : Alike apart known s s') (timeoutMs : Nat) :
    Alike apart known (s.move (.endFlush timeoutMs)) (s'.move (.endFlush timeoutMs)) := by
  refine h.quiet ?_ h.transport
  unfold Transport.endFlush Queue.isIdle Transport.pending
  rw [h.transport.occupied]
  split
  · exact h.world
  · exact (like_sleep h.world _).log _ _

theorem beginClose (h : Alike apart known s s') :
    Alike apart known (s.move .beginClose) (s'.move .beginClose) := by
  have hclosed := h.transport.closed
  by_cases hc : s.transport.closed = true
  · rw [Scene.move_beginClose_of_closed hc, Scene.move_beginClose_of_closed (hclosed.trans hc)]
    exact h
  · rw [Scene.move_beginClose hc, Scene.move_beginClose (by rw [hclosed]; exact hc)]
    obtain ⟨ht, hw⟩ := h.transport.beginClose h.world
    exact h.quiet hw ht

theorem endClose (h : Alike apart known s s') :
    Alike apart known (s.move .endClose) (s'.move .endClose) := by
  have hclosed := h.transport.closed
  by_cases hc : s.transport.closed = true
  · rw [Scene.move_endClose hc, Scene.move_endClose (hclosed.trans hc)]
    obtain ⟨ht, hw⟩ := h.transport.endClose h.world
    exact h.quiet hw ht
  · rw [Scene.move_endClose_of_not_closed hc,
      Scene.move_endClose_of_not_closed (by rw [hclosed]; exact hc)]
    exact h

theorem change (h : Alike apart known s s') (c : Change) :
    Alike apart known (s.move (.change c)) (s'.move (.change c)) :=
  h.quiet (c.like h.world) h.transport

theorem pushReply (h : Alike apart known s s') (reply reply' : Reply) :
    Alike apart known (s.move (.change (.pushReply reply)))
      (s'.move (.change (.pushReply reply'))) :=
  h.quiet ⟨h.world.surroundings, h.world.files, h.world.hints, h.world.journal⟩ h.transport

/-! ### Submitting -/

theorem send (h : Alike apart known s s') (e : Envelope) {hint : Option HintId}
    (hk : ∀ id, hint = some id → known id) : Alike apart known (s.send e hint) (s'.send e hint) := by
  obtain ⟨hresult, htransport, hworld⟩ := h.transport.send h.world e hk
  have hentry : s'.entry e hint = s.entry e hint := by
    unfold Scene.entry Scene.fateOf
    rw [capabilities_congr h.world.surroundings, h.transport.left? e h.world.surroundings,
      h.transport.refusal?, hresult]
  refine ⟨hworld, htransport, ?_, fun n hn => ?_, fun b hb => ?_⟩
  · rw [s.ledger_send, s'.ledger_send, List.length_append, List.length_append, h.length]
    rfl
  · rw [s.ledger_send, s'.ledger_send, hentry, List.getElem?_append, List.getElem?_append, h.length,
      h.ledger n hn]
  · obtain ⟨r, fate, hr, hr', hgiven, hgiven'⟩ := h.own b hb
    refine ⟨r, fate, ?_, ?_, hgiven, hgiven'⟩
    · rw [s.ledger_send, List.getElem?_append_left (List.getElem?_eq_some_iff.1 hr).1, hr]
    · rw [s'.ledger_send, List.getElem?_append_left (List.getElem?_eq_some_iff.1 hr').1, hr']

/-! ### The worker -/

theorem enter {tr tr' : Transport} (h : Alike apart known s s') (hs : t.submission ≠ apart)
    (stage : Stage) (ht : Twins apart tr tr') (hw : Like apart known w w') :
    Alike apart known ⟨tr, w, s.ledger.enter t stage⟩ ⟨tr', w', s'.ledger.enter t stage⟩ := by
  refine ⟨hw, ht, ?_, fun n hn => Ledger.getElem?_enter_congr (h.ledger n hn) t stage,
    fun b hb => ?_⟩
  · rw [Ledger.length_enter, Ledger.length_enter, h.length]
  · rw [hb] at hs
    obtain ⟨r, fate, hr, hr', hanswered⟩ := h.own b hb
    exact ⟨r, fate, by rw [Ledger.getElem?_enter_ne hs, hr],
      by rw [Ledger.getElem?_enter_ne hs, hr'], hanswered⟩

theorem ne_apart {stage : Stage} (h : Alike apart known s s') (hh : s.ledger.Has t stage)
    (hs : Fate.isAnswered (.passed t.envelope stage) = false) : t.submission ≠ apart := by
  obtain ⟨n, r, hr, hf, ht⟩ := hh
  have hn : t.submission = some n := by rw [ht]; rfl
  rw [hn]
  intro hb
  obtain ⟨r', fate, hr', -, hanswered, -⟩ := h.own n hb.symm
  rw [hr] at hr'
  cases hr'
  rw [hf, hs] at hanswered
  cases hanswered

section Same

variable {tr : Transport} {l l' : Ledger} (h : Alike apart known ⟨tr, w, l⟩ ⟨tr, w', l'⟩)
include h

/-- A task that is given the same reply in both scenes. -/
theorem start (hr : tr.queue.worker = .received t) (hc : tr.queue.cancelled = false)
    (hs : t.submission ≠ apart) (hk : ∀ id, t.hint = some id → known id)
    (hreply : (t.started w).isSent = true → (t.started w').isSent = true → w'.reply = w.reply) :
    Alike apart known (Scene.work ⟨tr, w, l⟩) (Scene.work ⟨tr, w', l'⟩) := by
  rw [Scene.work_start (s := ⟨tr, w, l⟩) hr hc, Scene.work_start (s := ⟨tr, w', l'⟩) hr hc]
  dsimp only
  have htogether := Task.together_start h.world hk .worker
  generalize t.started w = standing at htogether hreply ⊢
  generalize t.started w' = standing' at htogether hreply ⊢
  generalize t.start .worker w = run at htogether ⊢
  generalize t.start .worker w' = run' at htogether ⊢
  cases htogether with
  | unsent _ _ _ unsent progress like =>
    rw [progress]
    exact h.enter hs _ .same like
  | sent w₁ w₁' like surroundings =>
    rw [hreply (Task.isSent_arrived _ _ _) (Task.isSent_arrived _ _ _)]
    obtain ⟨hprogress, hreceive⟩ := Task.like_take like hk (t.place .worker) w.reply
    rw [hprogress]
    exact h.enter hs _ .same hreceive

theorem resume {reply : Reply} (hr : tr.queue.worker = .running t reply)
    (hs : t.submission ≠ apart) (hk : ∀ id, t.hint = some id → known id) :
    Alike apart known (Scene.work ⟨tr, w, l⟩) (Scene.work ⟨tr, w', l'⟩) := by
  have hlatches : w'.latches = w.latches := latches_congr h.world.surroundings
  cases hfree : reply.isFree w.latches with
  | false =>
    rw [Scene.work_held (s := ⟨tr, w, l⟩) hr hfree,
      Scene.work_held (s := ⟨tr, w', l'⟩) hr (by rw [hlatches]; exact hfree)]
    exact h
  | true =>
    obtain ⟨hprogress, hreceive⟩ :=
      Task.like_take h.world hk (t.place .worker) (reply.behind w.latches)
    have hresume : t.resume .worker reply w' =
        t.receive (t.place .worker) (reply.behind w.latches) w' := by
      unfold Task.resume
      rw [hlatches]
    have harrived : t.arrived w' (reply.behind w'.latches) =
        t.arrived w (reply.behind w.latches) := by
      rw [hlatches, Task.arrived_congr h.world.surroundings]
    rw [Scene.work_resume (s := ⟨tr, w, l⟩) hr hfree,
      Scene.work_resume (s := ⟨tr, w', l'⟩) hr (by rw [hlatches]; exact hfree)]
    dsimp only
    rw [hresume, harrived, hprogress]
    exact h.enter hs _ .same hreceive

theorem dispose (hr : tr.queue.worker = .dropping t) (hs : t.submission ≠ apart)
    (hk : ∀ id, t.hint = some id → known id) :
    Alike apart known (Scene.work ⟨tr, w, l⟩) (Scene.work ⟨tr, w', l'⟩) := by
  obtain ⟨hfault, hreject⟩ := like_reject h.world hk .worker .cancelled
  rw [Scene.work_dispose (s := ⟨tr, w, l⟩) hr, Scene.work_dispose (s := ⟨tr, w', l'⟩) hr]
  dsimp only
  rw [hfault]
  exact h.enter hs _ .same hreject

end Same

/-- The worker does the same in both scenes, if the connections reply the same. -/
theorem work (h : Alike apart known s s') (hb : s.Balanced)
    (hc : s.world.cache.isOnDisk = false)
    (hk : ∀ n r id, some n ≠ apart → s.ledger[n]? = some r → r.hint = some id → known id)
    (hd : ∀ n reply reply', s.draw? = some (n, reply) → s'.draw? = some (n, reply') →
      reply' = reply) : Alike apart known s.work s'.work := by
  have hints {t : Task} {stage : Stage} (hh : s.ledger.Has t stage) (hs : t.submission ≠ apart) (id)
      (hid : t.hint = some id) : known id := by
    obtain ⟨n, r, hr, -, ht⟩ := hh
    rw [ht] at hs hid
    exact hk n r id hs hr hid
  obtain ⟨tr, w, l⟩ := s
  obtain ⟨tr', w', l'⟩ := s'
  have ht : Twins apart tr tr' := h.transport
  have hw : Like apart known w w' := h.world
  cases ht with
  | returned task fault fault' own some worker =>
    have hc' : w'.cache.isOnDisk = false := by rw [cache_congr hw.surroundings]; exact hc
    have hlog := (like_logFault own some fault hc).symm.trans
      (hw.trans (like_logFault own some fault' hc'))
    simp only [Scene.work, Queue.step, Scene.noted, worker]
    exact h.quiet hlog .same
  | same =>
    cases hworker : tr.queue.worker with
    | ready =>
      simp only [Scene.work, Queue.step, Scene.noted, hworker]
      cases tr.queue.waiting with
      | nil =>
        cases tr.queue.accepting with
        | true => exact h
        | false => exact h.quiet hw .same
      | cons t more => exact h.quiet hw .same
    | received t =>
      have hh := hb.placed.has_received hworker
      have hs := h.ne_apart hh rfl
      cases hcancelled : tr.queue.cancelled with
      | true =>
        simp only [Scene.work, Queue.step, Scene.noted, hworker, hcancelled]
        exact h.enter hs .dropping .same hw
      | false =>
        refine h.start hworker hcancelled hs (hints hh hs) fun hsent hsent' => ?_
        obtain ⟨n, hn, -⟩ := hh.submission
        have htake := hd n w.connection.take.1 w'.connection.take.1
          (Scene.draw?_of_isSent hworker hcancelled hsent hn)
          (Scene.draw?_of_isSent hworker hcancelled hsent' hn)
        unfold Collaborators.reply
        rw [htake, latches_congr hw.surroundings]
    | running t reply =>
      have hh : Ledger.Has l t (.started (.held reply)) :=
        hb.placed.has_atHand (by rw [hworker]; rfl)
      have hs := h.ne_apart hh rfl
      exact h.resume hworker hs (hints hh hs)
    | returned t fault =>
      have hlog : Like apart known (Queue.logFault handler t fault w)
          (Queue.logFault handler t fault w') := by
        cases fault with
        | none => exact hw
        | some fault => exact hw.log _ _
      simp only [Scene.work, Queue.step, Scene.noted, hworker]
      exact h.quiet hlog .same
    | dropping t =>
      have hh : Ledger.Has l t .dropping := hb.placed.has_atHand (by rw [hworker]; rfl)
      have hs := h.ne_apart hh rfl
      exact h.dispose hworker hs (hints hh hs)
    | stopped =>
      simp only [Scene.work, Queue.step, hworker]
      exact h
    | broken fault =>
      simp only [Scene.work, Queue.step, hworker]
      exact h

/-- The worker starts the task that gets different replies. If it comes that far, it is apart. -/
theorem part {b : SubmissionId} (h : Alike none (fun _ => True) s s') (hb : s.Balanced)
    (hc : s.world.cache.isOnDisk = false) (hr : s.transport.queue.worker = .received t)
    (hcancelled : s.transport.queue.cancelled = false) (hs : t.submission = some b)
    (hn : ∀ id, known id → t.hint ≠ some id)
    (hd : ∀ reply, s.draw? = some (b, reply) ∨ s'.draw? = some (b, reply) →
      ∀ latch rest, reply ≠ .held latch rest) :
    Alike none (fun _ => True) s.work s'.work ∨ Alike (some b) known s.work s'.work := by
  have hh := hb.placed.has_received hr
  obtain ⟨tr, w, l⟩ := s
  obtain ⟨tr', w', l'⟩ := s'
  have ht : Twins none tr tr' := h.transport
  have hw : Like none (fun _ => True) w w' := h.world
  cases ht with
  | returned task fault fault' own some worker => cases some
  | same =>
    have hfree (hsent : (t.started w).isSent = true) :=
      reply_ne_held (hd w.connection.take.1
        (.inl (Scene.draw?_of_isSent hr hcancelled hsent hs)))
    have hfree' (hsent : (t.started w').isSent = true) :=
      reply_ne_held (hd w'.connection.take.1
        (.inr (Scene.draw?_of_isSent hr hcancelled hsent hs)))
    rw [Scene.work_start hr hcancelled, Scene.work_start (s := ⟨tr, w', l'⟩) hr hcancelled]
    dsimp only
    have htogether := Task.together_start (t := t) hw (fun _ _ => trivial) .worker
    generalize t.started w = standing at htogether hfree ⊢
    generalize t.started w' = standing' at htogether hfree' ⊢
    generalize t.start .worker w = run at htogether ⊢
    generalize t.start .worker w' = run' at htogether ⊢
    cases htogether with
    | unsent _ _ _ unsent progress like =>
      left
      rw [progress]
      exact h.enter (by rw [hs]; simp) _ .same like
    | sent w₁ w₁' like surroundings =>
      right
      have hsent := Task.isSent_arrived t w w.reply
      have hsent' := Task.isSent_arrived t w w'.reply
      obtain ⟨ending, he, hprogress⟩ :=
        Task.exists_ending_receive (hfree hsent) t (t.place .worker) surroundings
      obtain ⟨ending', he', hprogress'⟩ :=
        Task.exists_ending_receive (hfree' hsent') t (t.place .worker)
          (like.surroundings.trans surroundings)
      rw [he] at hsent
      rw [he'] at hsent'
      rw [hprogress, hprogress', he, he']
      have hl (m : SubmissionId) : l'[m]? = l[m]? := h.ledger m (by simp)
      refine ⟨?_, .returned t ending.fault? ending'.fault? hs rfl rfl, ?_, fun m hm => ?_,
        fun m hm => ?_⟩
      · have hc₁ : w₁.cache.isOnDisk = false := by rw [cache_congr surroundings]; exact hc
        exact Task.like_receive like hc₁ hs hn .worker _ _
      · rw [Ledger.length_enter, Ledger.length_enter]
        exact h.length
      · rw [← hs] at hm
        rw [Ledger.getElem?_enter_ne hm.symm, Ledger.getElem?_enter_ne hm.symm, hl]
      · rw [hm] at hs
        exact exists_record_of_ended hh hs hl hsent hsent'

end Alike

/-! ## One step of two runs -/

theorem Scene.cache_work (s : Scene) : s.work.world.cache = s.world.cache := by
  cases hst : s.transport.queue.step handler s.world with
  | none => rw [work_of_step_eq_none hst]
  | some r =>
    obtain ⟨q', w'⟩ := r
    rw [work_of_step hst]
    cases works_of_acts (Queue.acts_of_step hst) with
    | rests unstarted last noted => rfl
    | drops t takes noted => rfl
    | starts t takes kept noted =>
      exact cache_congr (t.start_spec .worker s.world).grows.surroundings
    | resumes t reply tends hand noted =>
      exact cache_congr (t.resume_spec .worker reply s.world).grows.surroundings
    | returns t fault tends returned noted => cases fault <;> rfl
    | disposes t tends hand noted =>
      exact cache_congr (grows_reject .worker t .cancelled s.world).surroundings

theorem Change.isOnDisk_apply (c : Change) (w : Collaborators) :
    (c.apply w).cache.isOnDisk = w.cache.isOnDisk := by
  cases c with
  | breakCache storeFault discardFault =>
    unfold apply
    dsimp only
    split
    next h => rw [h]; rfl
    · rfl
    · rfl
  | _ => rfl

theorem cache_shutDown (q : Queue Task Reply) (w : Collaborators) :
    (q.shutDown handler w).2.cache = w.cache := by
  unfold Queue.shutDown
  split <;> rfl

theorem cache_log (w : Collaborators) (place : Place) (notice : Notice) :
    (w.log place notice).cache = w.cache :=
  rfl

theorem cache_sleep (w : Collaborators) (nanos : Nat) : (w.sleep nanos).cache = w.cache :=
  rfl

-- The time that passes is rewritten away: by computation, the kernel would count its nanoseconds.
theorem cache_endFlush (t : Transport) (w : Collaborators) (timeoutMs : Nat) :
    (t.endFlush timeoutMs w).2.cache = w.cache := by
  unfold Transport.endFlush
  split
  · rfl
  · rw [cache_log, cache_sleep]

theorem cache_endClose (t : Transport) (w : Collaborators) :
    (t.endClose w).2.cache = w.cache := by
  unfold Transport.endClose
  split
  · rfl
  · dsimp only
    unfold Queue.shutDownNow
    rw [cache_shutDown, cache_log, cache_sleep]

/-- No move makes a cache keep files. -/
theorem Scene.isOnDisk_move (s : Scene) (m : Move) :
    (s.move m).world.cache.isOnDisk = s.world.cache.isOnDisk := by
  cases m with
  | send e hint =>
    have hc : (s.send e hint).world.cache = s.world.cache :=
      cache_congr (w := numbered s.world) (s.send_spec e hint).2.surroundings
    exact congrArg Cache.isOnDisk hc
  | beginFlush timeoutMs => rfl
  | endFlush timeoutMs =>
    exact congrArg Cache.isOnDisk (cache_endFlush s.transport s.world timeoutMs)
  | beginClose =>
    by_cases hclosed : s.transport.closed = true
    · rw [move_beginClose_of_closed hclosed]
    · rw [move_beginClose hclosed]
      exact congrArg Cache.isOnDisk (cache_shutDown _ _)
  | endClose =>
    by_cases hclosed : s.transport.closed = true
    · rw [move_endClose hclosed]
      exact congrArg Cache.isOnDisk (cache_endClose _ _)
    · rw [move_endClose_of_not_closed hclosed]
  | work => exact congrArg Cache.isOnDisk s.cache_work
  | change c => exact c.isOnDisk_apply s.world

/-- A move, apart from the reply that it scripts. -/
def Move.plain : Move → Option Move
  | .change (.pushReply _) => none
  | m => some m

theorem Move.eq_of_plain {m m' : Move} (h : m'.plain = m.plain) :
    m' = m ∨ ∃ reply reply', m = .change (.pushReply reply) ∧ m' = .change (.pushReply reply') := by
  have plain_eq (m : Move) :
      m.plain = some m ∨ m.plain = none ∧ ∃ reply, m = .change (.pushReply reply) := by
    unfold plain
    split
    · exact .inr ⟨rfl, _, rfl⟩
    · exact .inl rfl
  rcases plain_eq m with hm | ⟨hm, reply, hr⟩ <;> rcases plain_eq m' with hm' | ⟨hm', reply', hr'⟩ <;>
    rw [hm, hm'] at h
  · exact .inl (Option.some.inj h)
  · cases h
  · cases h
  · exact .inr ⟨reply, reply', hr, hr'⟩

theorem Move.eq_work_of_plain {m' : Move} (h : m'.plain = Move.plain .work) : m' = .work := by
  rcases eq_of_plain h with h | ⟨_, _, h, -⟩
  · exact h
  · cases h

theorem Scene.exists_of_draw? {n : SubmissionId} {reply : Reply} (h : s.draw? = some (n, reply)) :
    ∃ t, s.transport.queue.worker = .received t ∧ s.transport.queue.cancelled = false ∧
      t.submission = some n := by
  unfold draw? at h
  split at h
  next t hw =>
    split at h
    next hc =>
      simp only [Bool.and_eq_true, Bool.not_eq_true'] at hc
      cases hs : t.submission with
      | none =>
        rw [hs] at h
        cases h
      | some m =>
        rw [hs] at h
        cases h
        exact ⟨t, hw, hc.1, hs⟩
    · cases h
  iterate 6 cases h

namespace Alike

theorem move (h : Alike apart known s s') (hb : s.Balanced) (hc : s.world.cache.isOnDisk = false)
    (hk : ∀ n r id, some n ≠ apart → s.ledger[n]? = some r → r.hint = some id → known id)
    {m m' : Move} (hm : m'.plain = m.plain)
    (hsend : ∀ e hint id, m = .send e hint → hint = some id → known id)
    (hd : m = .work → ∀ n reply reply', s.draw? = some (n, reply) → s'.draw? = some (n, reply') →
      reply' = reply) : Alike apart known (s.move m) (s'.move m') := by
  rcases Move.eq_of_plain hm with rfl | ⟨reply, reply', rfl, rfl⟩
  · cases m' with
    | send e hint => exact h.send e fun id hid => hsend e hint id rfl hid
    | beginFlush timeoutMs => exact h.beginFlush timeoutMs
    | endFlush timeoutMs => exact h.endFlush timeoutMs
    | beginClose => exact h.beginClose
    | endClose => exact h.endClose
    | work => exact h.work hb hc hk (hd rfl)
    | change c => exact h.change c
  · exact h.pushReply reply reply'

end Alike

/-- Two scenes stay alike, or part when the submission `b` is answered and stay alike but for it. -/
theorem alike_step {b : SubmissionId}
    (h : Alike none (fun _ => True) s s' ∨ Alike (some b) known s s') (hb : s.Balanced)
    (hc : s.world.cache.isOnDisk = false)
    (hk : ∀ n r id, s.ledger[n]? = some r → r.hint = some id → (known id ↔ n ≠ b))
    {m m' : Move} (hm : m'.plain = m.plain)
    (hsend : ∀ e hint id, m = .send e hint → hint = some id → s.ledger.length ≠ b → known id)
    (hsame : m = .work → ∀ n reply reply', n ≠ b → s.draw? = some (n, reply) →
      s'.draw? = some (n, reply') → reply' = reply)
    (hfree : m = .work → ∀ reply, s.draw? = some (b, reply) ∨ s'.draw? = some (b, reply) →
      ∀ latch rest, reply ≠ .held latch rest) :
    Alike none (fun _ => True) (s.move m) (s'.move m') ∨
      Alike (some b) known (s.move m) (s'.move m') := by
  rcases h with h | h
  · by_cases hstarts : m = .work ∧ ∃ t, s.transport.queue.worker = .received t ∧
        s.transport.queue.cancelled = false ∧ t.submission = some b
    · obtain ⟨rfl, t, hr, hcancelled, hs⟩ := hstarts
      obtain rfl := Move.eq_work_of_plain hm
      refine h.part hb hc hr hcancelled hs (fun id hid hhint => ?_) (hfree rfl)
      obtain ⟨r, hrecord, -, ht⟩ := (hb.placed.has_received hr).exists_record hs
      rw [ht] at hhint
      exact (hk b r id hrecord hhint).1 hid rfl
    · refine .inl (h.move hb hc (fun _ _ _ _ _ _ => trivial) hm (fun _ _ _ _ _ => trivial) ?_)
      intro hwork n reply reply' hd hd'
      refine hsame hwork n reply reply' (fun hn => hstarts ⟨hwork, ?_⟩) hd hd'
      rw [← hn]
      exact Scene.exists_of_draw? hd
  · refine .inr (h.move hb hc (fun n r id hn hr hid => (hk n r id hr hid).2 (by simpa using hn)) hm
      (fun e hint id he hid => hsend e hint id he hid ?_) ?_)
    · obtain ⟨r, fate, hr, -⟩ := h.own b rfl
      exact Nat.ne_of_gt (List.getElem?_eq_some_iff.1 hr).1
    · intro hwork n reply reply' hd hd'
      obtain ⟨t, hr, -, hn⟩ := Scene.exists_of_draw? hd
      have hne := h.ne_apart (hb.placed.has_received hr) rfl
      rw [hn] at hne
      exact hsame hwork n reply reply' (by simpa using hne) hd hd'

end Courier.Transport
