import Courier.Proofs.Task.Standing

/-!
# Worlds that are alike

`Like apart known w w'` says that two worlds differ at most in the replies that their connections will
give, in what was written for the submission `apart`, and in what hints remember that are not `known`.
Calls for other submissions and for known hints keep worlds alike and have the same results in both
(`Like.start`, `Like.receive`). What the run of the task apart does with its reply is not seen in a
world that is alike (`like_receive`).
-/

namespace Courier

/-- Whether a line does not belong to the submission `apart`. -/
def Entry.isBeside (apart : Option SubmissionId) (l : Entry) : Bool :=
  apart.isNone || l.place.submission != apart

/-- The lines that do not belong to the submission `apart`. -/
def Journal.beside (apart : Option SubmissionId) (journal : Journal) : Journal :=
  journal.filter (Entry.isBeside apart)

theorem Journal.beside_append (apart : Option SubmissionId) (j k : Journal) :
    Journal.beside apart (j ++ k) = j.beside apart ++ k.beside apart := List.filter_append ..

theorem Journal.beside_none (journal : Journal) : journal.beside none = journal :=
  List.filter_eq_self.2 fun _ _ => rfl

theorem Journal.beside_eq_nil {b : SubmissionId} {journal : Journal}
    (h : ∀ l ∈ journal, l.place.submission = some b) : journal.beside (some b) = [] :=
  List.filter_eq_nil_iff.2 fun l hl => by simp [Entry.isBeside, h l hl]

namespace Collaborators

variable {apart : Option SubmissionId} {known : HintId → Prop} {p : Place}
  {w w' w'' : Collaborators} {hint : Option HintId}

/-- Two worlds that differ at most in their connections, in the lines of one submission and in hints
that are not known. -/
structure Like (apart : Option SubmissionId) (known : HintId → Prop) (w w' : Collaborators) :
    Prop where
  surroundings : w'.surroundings = w.surroundings
  files : w'.files = w.files
  hints : ∀ id, known id → w'.hints[id]? = w.hints[id]?
  journal : w'.journal.beside apart = w.journal.beside apart

namespace Like

theorem refl (apart : Option SubmissionId) (known : HintId → Prop) (w : Collaborators) :
    Like apart known w w := ⟨rfl, rfl, fun _ _ => rfl, rfl⟩

theorem symm (h : Like apart known w w') : Like apart known w' w :=
  ⟨h.surroundings.symm, h.files.symm, fun id hk => (h.hints id hk).symm, h.journal.symm⟩

theorem trans (h : Like apart known w w') (h' : Like apart known w' w'') :
    Like apart known w w'' :=
  ⟨h'.surroundings.trans h.surroundings, h'.files.trans h.files,
    fun id hk => (h'.hints id hk).trans (h.hints id hk), h'.journal.trans h.journal⟩

theorem weaken (h : Like none (fun _ => True) w w') (apart : Option SubmissionId)
    (known : HintId → Prop) : Like apart known w w' where
  surroundings := h.surroundings
  files := h.files
  hints id _ := h.hints id trivial
  journal := by
    have hj := h.journal
    rw [Journal.beside_none, Journal.beside_none] at hj
    rw [hj]

/-! ## Calls on collaborators -/

theorem logAll (h : Like apart known w w') (p : Place) (notices : List Notice) :
    Like apart known (w.logAll p notices) (w'.logAll p notices) where
  surroundings := h.surroundings
  files := h.files
  hints := h.hints
  journal := by
    show Journal.beside apart (_ ++ _) = Journal.beside apart (_ ++ _)
    rw [Journal.beside_append, Journal.beside_append, h.journal]

theorem record (h : Like apart known w w') (p : Place) (event : Event) :
    Like apart known (w.record p event) (w'.record p event) where
  surroundings := h.surroundings
  files := h.files
  hints := h.hints
  journal := by
    show Journal.beside apart (_ ++ _) = Journal.beside apart (_ ++ _)
    rw [Journal.beside_append, Journal.beside_append, h.journal]

theorem log (h : Like apart known w w') (p : Place) (notice : Notice) :
    Like apart known (w.log p notice) (w'.log p notice) := h.record p (.log notice)

theorem setHint (h : Like apart known w w') (p : Place) (event : Event) {id : HintId}
    {old new : Hint} (ho : w.hints[id]? = some old) (ho' : w'.hints[id]? = some old)
    (hc : new.capabilities = old.capabilities) (hf : new.flushFault = old.flushFault) :
    Like apart known { w.record p event with hints := w.hints.set id new }
      { w'.record p event with hints := w'.hints.set id new } where
  surroundings := by
    have hs := surroundings_set_hint ho hc hf (w.record p event).journal
    have hs' := surroundings_set_hint ho' hc hf (w'.record p event).journal
    exact hs'.trans (h.surroundings.trans hs.symm)
  files := h.files
  hints i hi := by
    show (w'.hints.set id new)[i]? = (w.hints.set id new)[i]?
    by_cases he : id = i
    · subst he
      rw [List.getElem?_set_self (List.getElem?_eq_some_iff.1 ho').1,
        List.getElem?_set_self (List.getElem?_eq_some_iff.1 ho).1]
    · rw [List.getElem?_set_ne he, List.getElem?_set_ne he, h.hints i hi]
  journal := (h.record p event).journal

theorem signalRetry (h : Like apart known w w') (hk : ∀ id, hint = some id → known id) (p : Place)
    (value : Bool) : Like apart known (w.signalRetry p hint value) (w'.signalRetry p hint value) := by
  cases hint with
  | none => exact h.log _ _
  | some id =>
    have hi := h.hints id (hk id rfl)
    unfold Collaborators.signalRetry
    simp only [capabilities_congr h.surroundings]
    split
    · unfold setRetry
      rw [hi]
      cases ho : w.hints[id]? with
      | none => exact h
      | some old =>
        exact (h.setHint p _ ho (hi.trans ho) (Hint.capabilities_setRetry old value)
          (flushFault_setRetry old value)).logAll _ _
    · exact h.log _ _

theorem signalResult (h : Like apart known w w') (hk : ∀ id, hint = some id → known id) (p : Place)
    (value : Bool) :
    Like apart known (w.signalResult p hint value) (w'.signalResult p hint value) := by
  cases hint with
  | none => exact h
  | some id =>
    have hi := h.hints id (hk id rfl)
    unfold Collaborators.signalResult
    simp only [capabilities_congr h.surroundings]
    split
    · unfold setResult
      rw [hi]
      cases ho : w.hints[id]? with
      | none => exact h
      | some old =>
        exact (h.setHint p _ ho (hi.trans ho) (Hint.capabilities_setResult old value)
          (flushFault_setResult old value)).logAll _ _
    · exact h

theorem signalFailure (h : Like apart known w w') (hk : ∀ id, hint = some id → known id) (p : Place)
    (retry : Bool) :
    Like apart known (w.signalFailure p hint retry) (w'.signalFailure p hint retry) :=
  (h.signalResult hk p false).signalRetry hk p retry

theorem markFlushed (h : Like apart known w w') {id : HintId} (hk : known id) (p : Place) :
    (w'.markFlushed p id).1 = (w.markFlushed p id).1 ∧
      Like apart known (w.markFlushed p id).2 (w'.markFlushed p id).2 := by
  have hi := h.hints id hk
  unfold Collaborators.markFlushed
  rw [hi]
  cases ho : w.hints[id]? with
  | none => exact ⟨rfl, h⟩
  | some old =>
    exact ⟨rfl, h.setHint p _ ho (hi.trans ho) (Hint.capabilities_markFlushed old)
      (flushFault_markFlushed old)⟩

theorem store (h : Like apart known w w') (p : Place) (e : Envelope) (hinted : Bool) :
    (w'.store p e hinted).1 = (w.store p e hinted).1 ∧
      Like apart known (w.store p e hinted).2 (w'.store p e hinted).2 := by
  have hc := cache_congr h.surroundings
  unfold Collaborators.store
  rw [hc, h.files]
  have hr := h.record p (.store e hinted)
  have hw : Like apart known
      { w.record p (.store e hinted) with files := (w.cache.store w.files e).files }
      { w'.record p (.store e hinted) with files := (w.cache.store w.files e).files } :=
    ⟨hr.surroundings, rfl, hr.hints, hr.journal⟩
  exact ⟨rfl, hw.logAll _ _⟩

theorem discard (h : Like apart known w w') (p : Place) (e : Envelope) :
    (w'.discard p e).1 = (w.discard p e).1 ∧
      Like apart known (w.discard p e).2 (w'.discard p e).2 := by
  have hc := cache_congr h.surroundings
  unfold Collaborators.discard
  rw [hc, h.files]
  have hr := h.record p (.discard e)
  have hw : Like apart known
      { w.record p (.discard e) with files := (w.cache.discard w.files e).files }
      { w'.record p (.discard e) with files := (w.cache.discard w.files e).files } :=
    ⟨hr.surroundings, rfl, hr.hints, hr.journal⟩
  exact ⟨rfl, hw.logAll _ _⟩

theorem send (h : Like apart known w w') (p : Place) (e : Envelope) :
    Like apart known (w.send p e).2 (w'.send p e).2 :=
  have hr := h.record p (.send e)
  ⟨hr.surroundings, hr.files, hr.hints, hr.journal⟩

theorem filter (h : Like apart known w w') (hk : ∀ id, hint = some id → known id) (p : Place)
    (e : Envelope) :
    (w'.filter p e hint).1 = (w.filter p e hint).1 ∧
      Like apart known (w.filter p e hint).2 (w'.filter p e hint).2 := by
  unfold Collaborators.filter
  rw [limits_congr h.surroundings, clock_congr h.surroundings]
  rcases w.limits.filter w.clock e with ⟨_ | left, notices⟩
  · exact ⟨rfl, (h.logAll p notices).signalFailure hk p false⟩
  · exact ⟨rfl, h.logAll p notices⟩

end Like

/-- What the connection replies to the next envelope, behind the latches that are open. -/
def reply (w : Collaborators) : Reply := w.connection.take.1.behind w.latches

theorem reply_congr (h : w'.surroundings = w.surroundings) (hc : w'.connection = w.connection) :
    w'.reply = w.reply := by
  unfold reply
  rw [hc, latches_congr h]

end Collaborators

/-- Whether a cache keeps files. -/
def Cache.isOnDisk : Cache → Bool
  | .disk _ => true
  | .none | .recording .. => false

theorem Cache.replay_of_not_isOnDisk {c : Cache} (hc : c.isOnDisk = false) (fs : FileSystem)
    (u : List Event) : c.replay fs u = fs := by
  induction u with
  | nil => rfl
  | cons event u ih =>
    cases c with
    | disk c => cases hc
    | none => cases event <;> exact ih
    | recording storeFault discardFault => cases event <;> exact ih

/-- What is done for the submission apart is not seen, if it leaves files and known hints alone. -/
theorem Collaborators.Grows.like {b : SubmissionId} {known : HintId → Prop} {p : Place}
    {u : List Event} {w w' : Collaborators} (g : Grows p u w w') (hp : p.submission = some b)
    (hc : w.cache.isOnDisk = false) (hh : ∀ id, known id → w'.hints[id]? = w.hints[id]?) :
    Like (some b) known w w' where
  surroundings := g.surroundings
  files := by rw [g.files, Cache.replay_of_not_isOnDisk hc]
  hints := hh
  journal := by
    obtain ⟨lines, hj, hplace, -⟩ := g.journal
    have hnil : lines.beside (some b) = [] :=
      Journal.beside_eq_nil fun l hl => by rw [hplace l hl, hp]
    rw [hj, Journal.beside_append, hnil, List.append_nil]

namespace Task

open Collaborators

variable {apart : Option SubmissionId} {known : HintId → Prop} {t : Task} {w w' : Collaborators}

/-! ## The ends of a run -/

section Ends

variable (h : Like apart known w w') (hk : ∀ id, t.hint = some id → known id)
include h hk

theorem like_report (p : Place) (success : Bool) :
    Like apart known (t.report p success w) (t.report p success w') := by
  unfold report
  rw [capabilities_congr h.surroundings]
  split
  · exact (h.log _ _).signalResult hk p success
  · exact h

theorem like_breakOff (p : Place) (fault : Fault) :
    Like apart known (t.breakOff p fault w).2 (t.breakOff p fault w').2 :=
  like_report (h.log _ _) hk p false

theorem like_succeed (p : Place) (code : Option Nat) :
    Like apart known (t.succeed p code w).2 (t.succeed p code w').2 :=
  like_report (h.log _ _) hk p true

theorem like_fail (p : Place) (error : SendError) :
    Like apart known (t.fail p error w).2 (t.fail p error w').2 := by
  unfold fail
  refine like_report ?_ hk p false
  split
  · exact (h.log _ _).signalRetry hk p true
  · exact h.log _ _

/-- One reply is taken in the same way in worlds that are alike. -/
theorem like_take (p : Place) (reply : Reply) :
    (t.receive p reply w').1 = (t.receive p reply w).1 ∧
      Like apart known (t.receive p reply w).2 (t.receive p reply w').2 := by
  cases reply with
  | held latch reply => exact ⟨rfl, h⟩
  | fault fault => exact ⟨rfl, like_breakOff h hk p fault⟩
  | failure reason => exact ⟨rfl, like_fail h hk p _⟩
  | answer outcome =>
    unfold receive
    dsimp only
    split
    · split
      · obtain ⟨hf, hd⟩ := h.discard p t.envelope
        rcases hw : w.discard p t.envelope with ⟨_ | fault, w₁⟩ <;>
          rcases hw' : w'.discard p t.envelope with ⟨_ | fault', w₁'⟩ <;>
          simp only [hw, hw'] at hf hd ⊢
        · exact ⟨rfl, like_succeed hd hk p _⟩
        · cases hf
        · cases hf
        · cases hf
          exact ⟨rfl, like_breakOff hd hk p _⟩
      · exact ⟨rfl, like_succeed h hk p _⟩
    · exact ⟨rfl, like_fail h hk p _⟩

end Ends

/-! ## The way to the reply -/

/-- Two runs of a task come to the same end without a reply, or both send the envelope in worlds that
are alike and go on with what their connections reply. -/
inductive Together (apart : Option SubmissionId) (known : HintId → Prop) (t : Task) (p : Place)
    (w : Collaborators) (reply reply' : Reply) :
    Standing → Standing → Progress Reply × Collaborators → Progress Reply × Collaborators → Prop where
  | unsent (s : Standing) (r r' : Progress Reply × Collaborators) (unsent : s.isSent = false)
      (progress : r'.1 = r.1) (like : Like apart known r.2 r'.2) :
      Together apart known t p w reply reply' s s r r'
  | sent (w₁ w₁' : Collaborators) (like : Like apart known w₁ w₁')
      (surroundings : w₁.surroundings = w.surroundings) :
      Together apart known t p w reply reply' (t.arrived w reply) (t.arrived w reply')
        (t.receive p reply w₁) (t.receive p reply' w₁')

namespace Together

variable {p : Place} {w₁ : Collaborators} {reply reply' : Reply} {s s' : Standing}
  {r r' : Progress Reply × Collaborators}

theorem congr (hs : w₁.surroundings = w.surroundings)
    (h : Together apart known t p w₁ reply reply' s s' r r') :
    Together apart known t p w reply reply' s s' r r' := by
  cases h with
  | unsent _ _ _ unsent progress like => exact .unsent s r r' unsent progress like
  | sent w₂ w₂' like surroundings =>
    rw [arrived_congr hs, arrived_congr hs]
    exact .sent w₂ w₂' like (surroundings.trans hs)

end Together

theorem notify_of_not_flush (hf : ∀ id, t.hint = some id → (w.capabilities t.hint).flush = false)
    (p : Place) : t.notify p w = t.askGate p w ∧ t.notified w = t.asked w := by
  unfold notify notified flushFault?
  cases hh : t.hint with
  | none => exact ⟨rfl, rfl⟩
  | some id =>
    have hn : ¬ (w.capabilities (some id)).flush = true := by
      rw [← hh, hf id hh]
      exact Bool.false_ne_true
    simp only [if_neg hn, and_self]

theorem notify_of_flush {id : HintId} (hh : t.hint = some id)
    (hf : (w.capabilities t.hint).flush = true) (p : Place) :
    (t.notify p w = match w.markFlushed p id with
      | (some fault, w) => t.breakOff p fault w
      | (none, w) => t.askGate p (w.log p (.flushNotified t.label))) ∧
    t.notified w = match (w.markFlushed p id).1 with
      | some fault => .ended (.flushBroke fault)
      | none => t.asked w := by
  rw [hh] at hf
  have hfault : t.flushFault? w = (w.markFlushed p id).1 := by
    unfold flushFault?
    rw [hh, fst_markFlushed]
    exact if_pos hf
  constructor
  · unfold notify
    rw [hh]
    exact if_pos hf
  · rw [← hfault]
    rfl

section Together

variable (h : Like apart known w w') (hk : ∀ id, t.hint = some id → known id)
include h

theorem together_send (p : Place) :
    Together apart known t p w w.reply w'.reply (t.sent w) (t.sent w') (t.send p w) (t.send p w') := by
  have hs : t.sent w' = t.arrived w w'.reply := arrived_congr h.surroundings t _
  rw [hs]
  exact .sent _ _ (h.send p t.envelope) rfl

include hk

theorem together_askGate (p : Place) :
    Together apart known t p w w.reply w'.reply (t.asked w) (t.asked w') (t.askGate p w)
      (t.askGate p w') := by
  have hr := h.record p (.askGate w.gate.isConnected)
  unfold askGate asked Collaborators.askGate Gate.answer
  rw [gate_congr h.surroundings]
  cases w.gate.fault? with
  | some fault => exact .unsent _ _ _ rfl rfl (like_breakOff hr hk p fault)
  | none =>
    dsimp only
    cases hc : w.gate.isConnected with
    | false =>
      rw [hc] at hr
      exact .unsent _ _ _ rfl rfl (like_fail hr hk p .disconnected)
    | true =>
      rw [hc] at hr
      have hs : (w.record p (.askGate true)).surroundings = w.surroundings := rfl
      exact (together_send hr p).congr hs

theorem together_notify (p : Place) :
    Together apart known t p w w.reply w'.reply (t.notified w) (t.notified w') (t.notify p w)
      (t.notify p w') := by
  have hc := capabilities_congr h.surroundings t.hint
  by_cases hflush : ∃ id, t.hint = some id ∧ (w.capabilities t.hint).flush = true
  · obtain ⟨id, hh, hflush⟩ := hflush
    obtain ⟨hn, hs⟩ := notify_of_flush hh hflush p
    obtain ⟨hn', hs'⟩ := notify_of_flush hh (w := w') (by rw [hc, hflush]) p
    obtain ⟨hfault, hm⟩ := h.markFlushed (hk id hh) p
    have g := grows_markFlushed p (by rw [← hh]; exact hflush)
    have g' := grows_markFlushed (w := w') p (by rw [← hh, hc]; exact hflush)
    rw [hn, hs, hn', hs']
    rcases hw : w.markFlushed p id with ⟨_ | fault, w₁⟩ <;>
      rcases hw' : w'.markFlushed p id with ⟨_ | fault', w₁'⟩ <;>
      simp only [hw, hw'] at hfault hm g g' ⊢
    · have g := g.log (.flushNotified t.label)
      have g' := g'.log (.flushNotified t.label)
      have ht := together_askGate (hm.log p (.flushNotified t.label)) hk p
      rw [asked_congr g.surroundings g.connection, asked_congr g'.surroundings g'.connection,
        reply_congr g.surroundings g.connection, reply_congr g'.surroundings g'.connection] at ht
      exact ht.congr g.surroundings
    · cases hfault
    · cases hfault
    · cases hfault
      exact .unsent _ _ _ rfl rfl (like_breakOff hm hk p fault)
  · have quiet {w₁ : Collaborators} (hc₁ : w₁.capabilities t.hint = w.capabilities t.hint) (id)
        (hh : t.hint = some id) : (w₁.capabilities t.hint).flush = false := by
      rw [hc₁]
      exact Bool.eq_false_iff.2 fun hf => hflush ⟨id, hh, hf⟩
    obtain ⟨hn, hs⟩ := notify_of_not_flush (quiet rfl) p
    obtain ⟨hn', hs'⟩ := notify_of_not_flush (quiet hc) p
    rw [hn, hs, hn', hs']
    exact together_askGate h hk p

/-- Two runs of a task that start in worlds that are alike. -/
theorem together_start (side : Side) :
    Together apart known t (t.place side) w w.reply w'.reply (t.started w) (t.started w')
      (t.start side w) (t.start side w') := by
  unfold start started
  by_cases hkept : t.kept = true
  · obtain ⟨hfault, hs⟩ := h.store (t.place side) t.envelope t.hint.isSome
    have g := grows_store (t.place side) t.envelope t.hint.isSome w
    have g' := grows_store (t.place side) t.envelope t.hint.isSome w'
    have hf := fst_store (t.place side) t.envelope t.hint.isSome w
    have hf' := fst_store (t.place side) t.envelope t.hint.isSome w'
    simp only [if_pos hkept, ← hf, ← hf']
    rcases hw : w.store (t.place side) t.envelope t.hint.isSome with ⟨_ | fault, w₁⟩ <;>
      rcases hw' : w'.store (t.place side) t.envelope t.hint.isSome with ⟨_ | fault', w₁'⟩ <;>
      simp only [hw, hw'] at hfault hs g g' ⊢
    · have ht := together_notify hs hk (t.place side)
      rw [notified_congr g.surroundings g.connection, notified_congr g'.surroundings g'.connection,
        reply_congr g.surroundings g.connection, reply_congr g'.surroundings g'.connection] at ht
      exact ht.congr g.surroundings
    · cases hfault
    · cases hfault
    · cases hfault
      exact .unsent _ _ _ rfl rfl (like_breakOff hs hk _ fault)
  · simp only [if_neg hkept]
    exact together_notify h hk (t.place side)

end Together

/-! ## The task apart -/

section Hints

variable {id : HintId} (hn : t.hint ≠ some id)
include hn

theorem hints_signalRetry (p : Place) (value : Bool) (w : Collaborators) :
    (w.signalRetry p t.hint value).hints[id]? = w.hints[id]? := by
  unfold Collaborators.signalRetry
  split
  next i hi =>
    split
    · unfold setRetry
      split
      · rfl
      · exact List.getElem?_set_ne fun he => hn (by rw [hi, he])
    · rfl
  · rfl

theorem hints_signalResult (p : Place) (value : Bool) (w : Collaborators) :
    (w.signalResult p t.hint value).hints[id]? = w.hints[id]? := by
  unfold Collaborators.signalResult
  split
  next i hi =>
    split
    · unfold setResult
      split
      · rfl
      · exact List.getElem?_set_ne fun he => hn (by rw [hi, he])
    · rfl
  · rfl

theorem hints_report (p : Place) (success : Bool) (w : Collaborators) :
    (t.report p success w).hints[id]? = w.hints[id]? := by
  unfold report
  split
  · exact hints_signalResult hn p success _
  · rfl

theorem hints_fail (p : Place) (error : SendError) (w : Collaborators) :
    (t.fail p error w).2.hints[id]? = w.hints[id]? := by
  unfold fail
  refine (hints_report hn p false _).trans ?_
  split
  · exact hints_signalRetry hn p true _
  · rfl

theorem hints_receive (p : Place) (reply : Reply) (w : Collaborators) :
    (t.receive p reply w).2.hints[id]? = w.hints[id]? := by
  have breakOff (fault : Fault) (w : Collaborators) :
      (t.breakOff p fault w).2.hints[id]? = w.hints[id]? := hints_report hn p false _
  have succeed (code : Option Nat) (w : Collaborators) :
      (t.succeed p code w).2.hints[id]? = w.hints[id]? := hints_report hn p true _
  cases reply with
  | held latch reply => rfl
  | fault fault => exact breakOff fault w
  | failure reason => exact hints_fail hn p _ w
  | answer outcome =>
    unfold receive
    dsimp only
    split
    · split
      · have hd : (w.discard p t.envelope).2.hints = w.hints := rfl
        rcases hw : w.discard p t.envelope with ⟨_ | fault, w₁⟩ <;> rw [hw] at hd <;> rw [← hd]
        · exact succeed _ w₁
        · exact breakOff fault w₁
      · exact succeed _ w
    · exact hints_fail hn p _ w

end Hints

/-- Two replies to the task apart leave alike what they found alike, if the cache keeps no files. -/
theorem like_receive {b : SubmissionId} (h : Like none (fun _ => True) w w')
    (hc : w.cache.isOnDisk = false) (ht : t.submission = some b)
    (hn : ∀ id, known id → t.hint ≠ some id) (side : Side) (reply reply' : Reply) :
    Like (some b) known (t.receive (t.place side) reply w).2
      (t.receive (t.place side) reply' w').2 := by
  have hc' : w'.cache.isOnDisk = false := by rw [cache_congr h.surroundings, hc]
  have unseen (reply : Reply) (w : Collaborators) (hc : w.cache.isOnDisk = false) :
      Like (some b) known w (t.receive (t.place side) reply w).2 :=
    (t.receive_spec (t.place side) reply w).grows.like ht hc fun id hk =>
      hints_receive (hn id hk) (t.place side) reply w
  exact (unseen reply w hc).symm.trans ((h.weaken (some b) known).trans (unseen reply' w' hc'))

end Task
end Courier
