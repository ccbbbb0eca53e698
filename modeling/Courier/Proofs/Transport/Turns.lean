import Courier.Proofs.Transport.Attribution

/-!
# One submission after the other

`InTurn` says that the worker deals with submissions in their order: what it writes to the journal
for a submission is written after it took that one, and after all that it wrote for those before. What
callers do for a submission is done for those that are turned away at once. Every move of a run keeps
this (`Scene.Balanced.inTurn_move`), and so it holds in every run (`inTurn_of_run`).
-/

namespace Courier

/-- What was written on the worker's side. -/
def Journal.ofWorker (journal : Journal) : Journal :=
  journal.filter fun l => l.place.side = .worker

theorem Journal.ofWorker_append (j k : Journal) :
    Journal.ofWorker (j ++ k) = j.ofWorker ++ k.ofWorker := List.filter_append ..

namespace Transport

open Collaborators

variable {s s' : Scene} {w w' w'' : Collaborators} {ledger : Ledger} {t : Task}

/-! ## Submissions that were taken -/

/-- Whether the worker took a task that came to this stage. -/
def Stage.isTaken : Stage → Bool
  | .dropping | .cancelled _ | .started _ => true
  | .rejected .. | .waiting => false

/-- Whether a submission was over when its call returned. -/
def Fate.isImmediate : Fate → Bool
  | .dropped _ | .passed _ (.rejected ..) => true
  | .passed _ .waiting | .passed _ .dropping | .passed _ (.cancelled _)
  | .passed _ (.started _) => false

theorem isTaken_of_isAtHand {stage : Stage} (h : stage.isAtHand = true) : stage.isTaken = true := by
  cases stage with
  | dropping | started _ => rfl
  | _ => cases h

theorem not_isImmediate_of_isAtHand {stage : Stage} (h : stage.isAtHand = true) (left : Envelope) :
    Fate.isImmediate (.passed left stage) = false := by
  cases stage with
  | dropping | started _ => rfl
  | _ => cases h

namespace Ledger

/-- The worker took the submission. -/
def Taken (ledger : Ledger) (n : SubmissionId) : Prop :=
  ∃ (r : Record) (left : Envelope) (stage : Stage),
    ledger[n]? = some r ∧ r.fate = .passed left stage ∧ stage.isTaken = true

theorem Taken.lt_length {n : SubmissionId} (h : ledger.Taken n) : n < ledger.length := by
  obtain ⟨r, left, stage, hr, -⟩ := h
  exact (List.getElem?_eq_some_iff.1 hr).1

theorem taken_append_iff {r : Record} (hr : ∀ left stage, r.fate = .passed left stage →
    stage.isTaken = false) (n : SubmissionId) : Taken (ledger ++ [r]) n ↔ ledger.Taken n := by
  constructor
  · rintro ⟨r', left, stage, hn, hf, ht⟩
    rcases getElem?_append_singleton hn with hn | ⟨-, rfl⟩
    · exact ⟨r', left, stage, hn, hf, ht⟩
    · rw [hr left stage hf] at ht
      cases ht
  · rintro ⟨r', left, stage, hn, hf, ht⟩
    exact ⟨r', left, stage, by
      rw [List.getElem?_append_left (List.getElem?_eq_some_iff.1 hn).1, hn], hf, ht⟩

/-- A task that comes to another stage is now among those that were taken. -/
theorem Has.taken_enter_iff {before after : Stage} (h : ledger.Has t before)
    (ha : after.isTaken = true) (n : SubmissionId) :
    Taken (ledger.enter t after) n ↔ t.submission = some n ∨ ledger.Taken n := by
  by_cases hn : t.submission = some n
  · refine iff_of_true ?_ (.inl hn)
    obtain ⟨r, hr, -⟩ := h.exists_record hn
    exact ⟨_, _, _, getElem?_enter_self hn hr after, rfl, ha⟩
  · unfold Taken
    rw [getElem?_enter_ne hn]
    exact (or_iff_right hn).symm

theorem Has.taken {stage : Stage} (h : ledger.Has t stage) (hs : stage.isTaken = true)
    {n : SubmissionId} (hn : t.submission = some n) : ledger.Taken n := by
  obtain ⟨r, hr, hf, -⟩ := h.exists_record hn
  exact ⟨r, _, stage, hr, hf, hs⟩

end Ledger

/-- The submissions that the worker took are those before all others. -/
structure TakenFirst (q : Queue Task Reply) (ledger : Ledger) : Prop where
  waits : ∀ n, ledger.Taken n → ∀ t ∈ q.unstarted, some n < t.submission
  last : ∀ n, ledger.Taken n → ∀ t ∈ current q.worker, some n ≤ t.submission

/-- The worker deals with submissions in turn, and callers with those that are turned away. -/
structure InTurn (s : Scene) : Prop where
  first : TakenFirst s.transport.queue s.ledger
  order : (s.world.journal.ofWorker).Pairwise fun l l' => l.place.submission ≤ l'.place.submission
  worker : ∀ l ∈ s.world.journal, l.place.side = .worker →
    ∀ n, l.place.submission = some n → s.ledger.Taken n
  caller : ∀ l ∈ s.world.journal, l.place.side = .caller → (l.event.effect?).isSome →
    ∀ n, l.place.submission = some n →
      ∃ r, s.ledger[n]? = some r ∧ r.fate.isImmediate = true

/-! ## What callers remark -/

/-- Only log lines of callers were written, and none for a submission. -/
def Remarked (w w' : Collaborators) : Prop :=
  ∃ lines : Journal, w'.journal = w.journal ++ lines ∧
    ∀ l ∈ lines, l.place = here ∧ l.event.effect? = none

theorem Remarked.of_eq (h : w'.journal = w.journal) : Remarked w w' :=
  ⟨[], by rw [h, List.append_nil], fun _ hl => by cases hl⟩

theorem Remarked.trans (h : Remarked w w') (h' : Remarked w' w'') : Remarked w w'' := by
  obtain ⟨lines, hj, hl⟩ := h
  obtain ⟨lines', hj', hl'⟩ := h'
  exact ⟨lines ++ lines', by rw [hj', hj, List.append_assoc],
    fun l hm => (List.mem_append.1 hm).elim (hl l) (hl' l)⟩

theorem remarked_logAll (notices : List Notice) (w : Collaborators) :
    Remarked w (w.logAll here notices) := by
  refine ⟨_, rfl, fun l hl => ?_⟩
  obtain ⟨notice, -, rfl⟩ := List.mem_map.1 hl
  exact ⟨rfl, rfl⟩

theorem remarked_log (notice : Notice) (w : Collaborators) : Remarked w (w.log here notice) :=
  remarked_logAll [notice] w

theorem remarked_sleep (nanos : Nat) (w : Collaborators) : Remarked w (w.sleep nanos) := .of_eq rfl

theorem Change.remarked (c : Change) (w : Collaborators) : Remarked w (c.apply w) := by
  cases c with
  | setGate connected => exact remarked_logAll _ { w with gate := (w.gate.set connected).1 }
  | changeLimits change =>
    exact (remarked_logAll (w.limits.change w.clock change).2
      { w with limits := (w.limits.change w.clock change).1 }).trans (.of_eq rfl)
  | breakCache storeFault discardFault =>
    refine .of_eq ?_
    unfold apply
    dsimp only
    split <;> rfl
  | replaceGate gate => exact .of_eq rfl
  | pushReply reply => exact .of_eq rfl
  | openLatch latch => exact .of_eq rfl
  | sleep nanos => exact .of_eq rfl
  | breakHint hint fault => exact .of_eq rfl

theorem remarked_shutDown (q : Queue Task Reply) (w : Collaborators) :
    Remarked w (q.shutDown handler w).2 := by
  unfold Queue.shutDown
  split
  · exact remarked_log _ _
  · exact .of_eq rfl

theorem remarked_endFlush (t : Transport) (timeoutMs : Nat) (w : Collaborators) :
    Remarked w (t.endFlush timeoutMs w).2 := by
  unfold endFlush
  split
  · exact .of_eq rfl
  · exact (remarked_sleep _ _).trans (remarked_log _ _)

theorem remarked_endClose (t : Transport) (w : Collaborators) : Remarked w (t.endClose w).2 := by
  unfold Transport.endClose
  split
  · exact remarked_log _ _
  · exact ((remarked_sleep _ _).trans (remarked_log _ _)).trans (remarked_shutDown _ _)

/-! ## One move -/

theorem ofWorker_append_of_caller {journal lines : Journal}
    (h : ∀ l ∈ lines, l.place.side = .caller) :
    Journal.ofWorker (journal ++ lines) = journal.ofWorker := by
  have hlines : lines.ofWorker = [] := List.filter_eq_nil_iff.2 fun l hl => by
    rw [h l hl]
    exact Bool.false_ne_true
  rw [Journal.ofWorker_append, hlines, List.append_nil]

/-- What is written at one place of the worker keeps the order, if nothing was written for later
submissions. -/
theorem ofWorker_append_pairwise {journal lines : Journal} {p : Place}
    (ho : (journal.ofWorker).Pairwise fun l l' => l.place.submission ≤ l'.place.submission)
    (hp : ∀ l ∈ journal.ofWorker, l.place.submission ≤ p.submission)
    (hl : ∀ l ∈ lines, l.place = p) :
    ((Journal.ofWorker (journal ++ lines))).Pairwise fun l l' =>
      l.place.submission ≤ l'.place.submission := by
  have at_p (l) (h : l ∈ lines.ofWorker) : l.place = p := hl l (List.mem_filter.1 h).1
  rw [Journal.ofWorker_append, List.pairwise_append]
  refine ⟨ho, ?_, fun l h l' h' => by rw [at_p l' h']; exact hp l h⟩
  refine List.pairwise_of_forall_mem_list fun l h l' h' => ?_
  rw [at_p l h, at_p l' h']
  cases p.submission with
  | none => exact Option.none_le
  | some n => exact Nat.le_refl n

/-- No submission was taken when its call returns. -/
theorem Enters.taken_iff {r : Record} {transport : Transport} (he : Enters s r transport)
    (n : SubmissionId) : Ledger.Taken (s.ledger ++ [r]) n ↔ s.ledger.Taken n := by
  refine Ledger.taken_append_iff (fun left stage hf => ?_) n
  cases he with
  | accepted left fate room => rw [fate] at hf; cases hf; rfl
  | dropped fault fate => rw [fate] at hf; cases hf
  | rejected left reason fault fate => rw [fate] at hf; cases hf; rfl

theorem TakenFirst.entered (hf : TakenFirst s.transport.queue s.ledger)
    (hn : s.ledger.length = s.world.submissions) {r : Record} {transport : Transport}
    (he : Enters s r transport) : TakenFirst transport.queue (s.ledger ++ [r]) := by
  refine ⟨fun n h => ?_, fun n h => ?_⟩ <;> rw [he.taken_iff] at h
  · cases he with
    | accepted left fate room =>
      -- what is accepted now comes last
      intro t ht
      simp only [Queue.unstarted, ← List.append_assoc, List.mem_append, List.mem_singleton] at ht
      rcases ht with ht | rfl
      · exact hf.waits n h t (List.mem_append.2 ht)
      · exact hn ▸ h.lt_length
    | dropped fault fate => exact hf.waits n h
    | rejected left reason fault fate => exact hf.waits n h
  · cases he with
    | accepted left fate room => exact hf.last n h
    | dropped fault fate => exact hf.last n h
    | rejected left reason fault fate => exact hf.last n h

namespace InTurn

theorem remarked (hi : InTurn s) {s' : Scene} (hl : s'.ledger = s.ledger)
    (hu : s'.transport.queue.unstarted = s.transport.queue.unstarted)
    (hc : current s'.transport.queue.worker = current s.transport.queue.worker)
    (hr : Remarked s.world s'.world) : InTurn s' := by
  obtain ⟨lines, hj, hlines⟩ := hr
  have new {l} (h : l ∈ s'.world.journal) :
      l ∈ s.world.journal ∨ l.place = here ∧ l.event.effect? = none := by
    rw [hj] at h
    exact (List.mem_append.1 h).imp_right (hlines l)
  refine ⟨⟨?_, ?_⟩, ?_, ?_, ?_⟩
  · rw [hl, hu]
    exact hi.first.waits
  · rw [hl, hc]
    exact hi.first.last
  · rw [hj, ofWorker_append_of_caller fun l h => by rw [(hlines l h).1]; rfl]
    exact hi.order
  · intro l h hside n hs
    rw [hl]
    rcases new h with h | ⟨h, -⟩
    · exact hi.worker l h hside n hs
    · rw [h] at hside
      cases hside
  · intro l h hside heff n hs
    rw [hl]
    rcases new h with h | ⟨-, h⟩
    · exact hi.caller l h hside heff n hs
    · rw [h] at heff
      cases heff

/-- A submission is made. -/
theorem entered (hi : InTurn s) (hn : s.ledger.length = s.world.submissions) {r : Record}
    {u : List Event} (hledger : s'.ledger = s.ledger ++ [r]) (he : Enters s r s'.transport)
    (hg : Grows (nextPlace s.world) u (numbered s.world) s'.world)
    (hu : u ≠ [] → r.fate.isImmediate = true) : InTurn s' := by
  obtain ⟨lines, hj, hplace, heffects⟩ := hg.journal
  have hj : s'.world.journal = s.world.journal ++ lines := hj
  refine ⟨?_, ?_, fun l h hside n hs => ?_, fun l h hside heff n hs => ?_⟩
  · rw [hledger]
    exact hi.first.entered hn he
  · rw [hj, ofWorker_append_of_caller fun l h => by rw [hplace l h]; rfl]
    exact hi.order
  · rw [hj] at h
    rcases List.mem_append.1 h with h | h
    · rw [hledger]
      exact (he.taken_iff n).2 (hi.worker l h hside n hs)
    · rw [hplace l h] at hside
      cases hside
  · rw [hj] at h
    rcases List.mem_append.1 h with h | h
    · obtain ⟨r', hr, ht⟩ := hi.caller l h hside heff n hs
      refine ⟨r', ?_, ht⟩
      rw [hledger, List.getElem?_append_left (List.getElem?_eq_some_iff.1 hr).1, hr]
    · -- an effect of the call itself
      obtain ⟨event, hevent⟩ := Option.isSome_iff_exists.1 heff
      have hne : u ≠ [] := by
        rw [← heffects]
        exact List.ne_nil_of_mem (List.mem_filterMap.2 ⟨l, h, hevent⟩)
      obtain rfl : s.world.submissions = n := by
        rw [hplace l h] at hs
        exact Option.some.inj hs
      refine ⟨r, ?_, hu hne⟩
      rw [hledger, ← hn]
      exact List.getElem?_concat_length

/-- The worker writes something for a task that it took, and takes none besides it. -/
theorem wrote (hi : InTurn s) {t : Task} {lines : Journal}
    (hj : s'.world.journal = s.world.journal ++ lines)
    (hplace : ∀ l ∈ lines, l.place = t.place .worker)
    (hlast : ∀ n, s.ledger.Taken n → some n ≤ t.submission)
    (hself : ∀ n, t.submission = some n → s'.ledger.Taken n)
    (htaken : ∀ n, s.ledger.Taken n → s'.ledger.Taken n)
    (haway : ∀ (n : SubmissionId) (r : Record), s.ledger[n]? = some r → r.fate.isImmediate = true →
      s'.ledger[n]? = some r)
    (hfirst : TakenFirst s'.transport.queue s'.ledger) : InTurn s' := by
  refine ⟨hfirst, ?_, fun l h hside n hs => ?_, fun l h hside heff n hs => ?_⟩
  · rw [hj]
    refine ofWorker_append_pairwise hi.order (fun l h => ?_) hplace
    obtain ⟨hmem, hside⟩ := List.mem_filter.1 h
    cases hs : l.place.submission with
    | none => exact Option.none_le
    | some n => exact hlast n (hi.worker l hmem (by simpa using hside) n hs)
  · rw [hj] at h
    rcases List.mem_append.1 h with h | h
    · exact htaken n (hi.worker l h hside n hs)
    · rw [hplace l h] at hs
      exact hself n hs
  · rw [hj] at h
    rcases List.mem_append.1 h with h | h
    · obtain ⟨r, hr, ht⟩ := hi.caller l h hside heff n hs
      exact ⟨r, haway n r hr ht, ht⟩
    · rw [hplace l h] at hside
      cases hside

end InTurn

/-! ## The worker -/

/-- A submission that was turned away is not at another stage later. -/
theorem Ledger.Has.getElem?_enter_of_isImmediate {before after : Stage} (h : ledger.Has t before)
    (hb : ∀ left, Fate.isImmediate (.passed left before) = false) {n : SubmissionId} {r : Record}
    (hr : ledger[n]? = some r) (ha : r.fate.isImmediate = true) :
    (ledger.enter t after)[n]? = some r := by
  have hn : t.submission ≠ some n := by
    intro hs
    obtain ⟨r', hm, hf, -⟩ := h.exists_record hs
    rw [hr] at hm
    cases hm
    rw [hf, hb] at ha
    cases ha
  rw [getElem?_enter_ne hn]
  exact hr

namespace TakenFirst

variable {q q' : Queue Task Reply}

/-- The worker takes the first of the tasks that wait. -/
theorem takes (hf : TakenFirst q ledger) (hp : Placed q ledger) (ht : Takes q q' t) {after : Stage}
    (ha : after.isTaken = true) : TakenFirst q' (ledger.enter t after) := by
  have hw : ledger.Has t .waiting := hp.has_received ht.received
  have hnew {n} (h : Ledger.Taken (ledger.enter t after) n) :
      t.submission = some n ∨ ledger.Taken n := (hw.taken_enter_iff ha n).1 h
  have hrest := hp.order
  rw [ht.first, List.pairwise_cons] at hrest
  refine ⟨fun n h u hmem => ?_, fun n h u hmem => ?_⟩
  · rcases hnew h with h | h
    · rw [← h]
      exact hrest.1 u hmem
    · exact hf.waits n h u (by rw [ht.first]; exact List.mem_cons_of_mem _ hmem)
  · rw [ht.last u hmem]
    obtain ⟨m, hm, -⟩ := hw.submission
    rw [hm] at hnew ⊢
    rcases hnew h with h | h
    · cases h
      exact Nat.le_refl n
    · have hlt := hf.waits n h t ht.mem_unstarted
      rw [hm] at hlt
      exact Nat.le_of_lt hlt

theorem goesOn (hf : TakenFirst q ledger) (ht : Tends q q' t) {before after : Stage}
    (hh : ledger.Has t before) (hb : before.isTaken = true) (ha : after.isTaken = true) :
    TakenFirst q' (ledger.enter t after) := by
  have hsame {n} (h : Ledger.Taken (ledger.enter t after) n) : ledger.Taken n := by
    rcases (hh.taken_enter_iff ha n).1 h with h | h
    · exact hh.taken hb h
    · exact h
  refine ⟨fun n h u hmem => ?_, fun n h u hmem => ?_⟩
  · rw [ht.unstarted] at hmem
    exact hf.waits n (hsame h) u hmem
  · rw [ht.last u hmem]
    exact hf.last n (hsame h) t ht.taken

theorem keeps (hf : TakenFirst q ledger) (ht : Tends q q' t) : TakenFirst q' ledger where
  waits n h u hmem := hf.waits n h u (ht.unstarted ▸ hmem)
  last n h u hmem := by
    rw [ht.last u hmem]
    exact hf.last n h t ht.taken

theorem le_of_unstarted (hf : TakenFirst q ledger) (hp : Placed q ledger)
    (ht : t ∈ q.unstarted) {n : SubmissionId} (h : ledger.Taken n) : some n ≤ t.submission := by
  have hlt := hf.waits n h t ht
  obtain ⟨m, hm, -⟩ := ((hp.waiting t).1 ht).submission
  rw [hm] at hlt ⊢
  exact Nat.le_of_lt hlt

end TakenFirst

namespace InTurn

theorem went (hi : InTurn s) {before after : Stage} (hh : s.ledger.Has t before)
    (hb : ∀ left, Fate.isImmediate (.passed left before) = false) (ha : after.isTaken = true)
    (hledger : s'.ledger = s.ledger.enter t after) {u : List Event}
    (hg : Grows (t.place .worker) u s.world s'.world)
    (hlast : ∀ n, s.ledger.Taken n → some n ≤ t.submission)
    (hfirst : TakenFirst s'.transport.queue (s.ledger.enter t after)) : InTurn s' := by
  obtain ⟨lines, hj, hplace, -⟩ := hg.journal
  have htaken (n) : s'.ledger.Taken n ↔ t.submission = some n ∨ s.ledger.Taken n := by
    rw [hledger]
    exact hh.taken_enter_iff ha n
  refine hi.wrote hj hplace hlast (fun n h => (htaken n).2 (.inl h))
    (fun m h => (htaken m).2 (.inr h)) (fun m r hr haway => ?_) (by rw [hledger]; exact hfirst)
  rw [hledger]
  exact hh.getElem?_enter_of_isImmediate hb hr haway

theorem took (hi : InTurn s) (hp : Placed s.transport.queue s.ledger)
    (ht : Takes s.transport.queue s'.transport.queue t) {after : Stage} (ha : after.isTaken = true)
    (hledger : s'.ledger = s.ledger.enter t after) {u : List Event}
    (hg : Grows (t.place .worker) u s.world s'.world) : InTurn s' :=
  hi.went (hp.has_received ht.received) (fun _ => rfl) ha hledger hg
    (fun _ => hi.first.le_of_unstarted hp ht.mem_unstarted) (hi.first.takes hp ht ha)

theorem tended (hi : InTurn s) (hp : Placed s.transport.queue s.ledger)
    (ht : Tends s.transport.queue s'.transport.queue t) {before after : Stage}
    (hand : atHand s.transport.queue.worker = some (t, before)) (ha : after.isTaken = true)
    (hledger : s'.ledger = s.ledger.enter t after) {u : List Event}
    (hg : Grows (t.place .worker) u s.world s'.world) : InTurn s' := by
  have hb := isAtHand_of_atHand hand
  exact hi.went (hp.has_atHand hand) (not_isImmediate_of_isAtHand hb) ha hledger hg
    (fun n h => hi.first.last n h t ht.taken)
    (hi.first.goesOn ht (hp.has_atHand hand) (isTaken_of_isAtHand hb) ha)

end InTurn

namespace Scene

theorem Balanced.inTurn_work (hb : s.Balanced) (hi : InTurn s) : InTurn s.work := by
  have hp := hb.placed
  cases hst : s.transport.queue.step handler s.world with
  | none =>
    rw [work_of_step_eq_none hst]
    exact hi
  | some r =>
    obtain ⟨q', w'⟩ := r
    rw [work_of_step hst]
    cases works_of_acts (Queue.acts_of_step hst) with
    | rests unstarted last noted => exact hi.remarked noted unstarted last (.of_eq rfl)
    | drops t takes noted => exact hi.took hp takes rfl noted (.refl _ _)
    | starts t takes kept noted =>
      exact hi.took hp takes rfl noted (t.start_spec .worker s.world).grows
    | resumes t reply tends hand noted =>
      exact hi.tended hp tends hand rfl noted (t.resume_spec .worker reply s.world).grows
    | returns t fault tends returned noted =>
      obtain ⟨ending, hh, -⟩ := hp.returned t fault returned
      have hg : Grows (t.place .worker) [] s.world (Queue.logFault handler t fault s.world) := by
        cases fault with
        | none => exact .refl _ _
        | some fault => exact grows_log _ _ _
      obtain ⟨lines, hj, hplace, -⟩ := hg.journal
      rw [noted]
      exact hi.wrote hj hplace (fun n h => hi.first.last n h t tends.taken) (fun _ => hh.taken rfl)
        (fun _ h => h) (fun _ _ h _ => h) (hi.first.keeps tends)
    | disposes t tends hand noted =>
      exact hi.tended hp tends hand rfl noted (grows_reject .worker t .cancelled s.world)

/-- What was done for a submission when its call returned was done because it was turned away. -/
theorem isImmediate_of_effects {r : Record} {transport : Transport} {n : SubmissionId}
    (he : Enters s r transport) (hu : r.effects n ≠ []) : r.fate.isImmediate = true := by
  cases he with
  | accepted left fate room =>
    refine absurd ?_ hu
    unfold Record.effects
    rw [fate]
    rfl
  | dropped fault fate => rw [fate]; rfl
  | rejected left reason fault fate => rw [fate]; rfl

theorem inTurn_beginClose (hi : InTurn s) : InTurn { s with
    transport := (s.transport.beginClose s.world).1
    world := (s.transport.beginClose s.world).2 } := by
  unfold Transport.beginClose
  refine hi.remarked rfl ?_ ?_ ((remarked_log _ _).trans (remarked_shutDown _ _))
  · rw [Queue.unstarted, Queue.worker_shutDown, Queue.waiting_shutDown]
    rfl
  · rw [Queue.worker_shutDown]

theorem inTurn_endClose (hi : InTurn s) : InTurn { s with
    transport := (s.transport.endClose s.world).1
    world := (s.transport.endClose s.world).2 } := by
  refine hi.remarked rfl ?_ ?_ (remarked_endClose _ _) <;> unfold Transport.endClose <;> split
  · rfl
  · rw [Queue.unstarted, Queue.worker_shutDownNow, Queue.waiting_shutDownNow]
    rfl
  · rfl
  · rw [Queue.worker_shutDownNow]

theorem Balanced.inTurn_move (hb : s.Balanced) (hi : InTurn s) (m : Move) : InTurn (s.move m) := by
  cases m with
  | send e hint =>
    obtain ⟨he, hg⟩ := s.send_spec e hint
    exact hi.entered hb.booked.length (s.ledger_send e hint) he hg (isImmediate_of_effects he)
  | beginFlush timeoutMs => exact hi.remarked rfl rfl rfl (remarked_log _ _)
  | endFlush timeoutMs => exact hi.remarked rfl rfl rfl (remarked_endFlush _ _ _)
  | beginClose =>
    show InTurn (if s.transport.closed then s else _)
    split
    · exact hi
    · exact inTurn_beginClose hi
  | endClose =>
    show InTurn (if s.transport.closed then _ else s)
    split
    · exact inTurn_endClose hi
    · exact hi
  | work => exact hb.inTurn_work hi
  | change c => exact hi.remarked rfl rfl rfl (c.remarked s.world)

end Scene

/-- Over an unused world nothing was done out of turn. -/
theorem inTurn_unused (hu : Unused w) (t : Transport) : InTurn ⟨t, w, []⟩ where
  first :=
    ⟨fun n h => absurd h.lt_length (Nat.not_lt_zero n),
      fun n h => absurd h.lt_length (Nat.not_lt_zero n)⟩
  order := List.pairwise_of_forall_mem_list fun l h l' _ => by
    rw [hu.journal l (List.mem_filter.1 h).1]
    exact Option.none_le
  worker l h _ n hs := by
    rw [hu.journal l h] at hs
    cases hs
  caller l h _ _ n hs := by
    rw [hu.journal l h] at hs
    cases hs

/-- In every run of a transport the worker deals with submissions in turn. -/
theorem inTurn_of_run {settings : TransportSettings} {limited : Bool} {t : Transport}
    (hu : Unused w) (hs : start settings limited w = (.ok t, w')) (moves : List Move) :
    InTurn (Scene.run moves ⟨t, w', []⟩) := by
  have hb := balanced_start hu hs
  have h₀ : InTurn ⟨t, w', []⟩ := by
    unfold start at hs
    split at hs
    · cases hs
    · cases hs
      exact (inTurn_unused hu _).remarked rfl rfl rfl (remarked_log _ _)
  exact (Scene.run_induction (P := fun s => s.Balanced ∧ InTurn s)
    (fun s m h => ⟨h.1.move m, h.1.inTurn_move h.2 m⟩) ⟨hb, h₀⟩ moves).2

end Transport
end Courier
