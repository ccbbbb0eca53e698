import Courier.Proofs.Transport.Balance

/-!
# Runs over a cache that never breaks off

`Cache.Whole` says that no call of a cache breaks off, and `Scene.Unbroken` that this holds at every
moment of a run. Then no submission is stopped by the cache (`cacheFault?_of_run`): whatever was
disposed of was disposed of to the end, and whatever was delivered was discarded.
-/

namespace Courier

/-- No call of the cache breaks off. -/
structure Cache.Whole (c : Cache) : Prop where
  store : ∀ e, c.storeFault? e = Option.none
  discard : ∀ e, c.discardFault? e = Option.none

theorem whole_none : Cache.none.Whole := ⟨fun _ => rfl, fun _ => rfl⟩

theorem whole_disk (c : DiskCache) : (Cache.disk c).Whole := ⟨fun _ => rfl, fun _ => rfl⟩

namespace Transport

open Collaborators

variable {s : Scene} {w : Collaborators}

/-! ## Faults of the cache -/

/-- The fault of the cache by which a task came to a stage. -/
def Stage.cacheFault? : Stage → Option Fault
  | .rejected _ fault | .cancelled fault => fault
  | .started (.ended (.storeBroke fault)) | .started (.ended (.discardBroke fault)) => some fault
  | .waiting | .dropping | .started _ => none

/-- The fault by which the cache broke off on a submission. -/
def Record.cacheFault? (r : Record) : Option Fault :=
  match r.fate with
  | .dropped fault => fault
  | .passed _ stage => stage.cacheFault?

theorem cacheFault?_arrived (hw : w.cache.Whole) (t : Task) (reply : Reply) :
    (Stage.started (t.arrived w reply)).cacheFault? = none := by
  cases reply with
  | answer outcome =>
    have hd : (if t.kept then w.cache.discardFault? t.envelope else none) = none := by
      split
      · exact hw.discard t.envelope
      · rfl
    unfold Task.arrived
    dsimp only
    rw [hd]
    split <;> rfl
  | failure reason => rfl
  | fault fault => rfl
  | held latch reply => rfl

theorem cacheFault?_started (hw : w.cache.Whole) (t : Task) :
    (Stage.started (t.started w)).cacheFault? = none := by
  have hs : (if t.kept then w.cache.storeFault? t.envelope else none) = none := by
    split
    · exact hw.store t.envelope
    · rfl
  unfold Task.started
  rw [hs]
  show (Stage.started (t.notified w)).cacheFault? = none
  unfold Task.notified
  split
  · rfl
  · unfold Task.asked
    split
    · rfl
    · exact cacheFault?_arrived hw t _
    · rfl

theorem fault?_reject (hw : w.cache.Whole) (side : Side) (t : Task) (reason : RejectReason) :
    (reject side t reason w).1 = none := by
  rw [fst_reject]
  split
  · rfl
  · exact hw.store t.envelope

theorem fault?_send (hw : w.cache.Whole) (t : Transport) (e : Envelope) (hint : Option HintId) :
    (t.send e hint w).1.fault? = none := by
  -- the limits, and what is logged before a refusal, leave the cache alone
  have hfil : (filtered t w e hint).cache = w.cache :=
    (cache_congr (grows_filtered t w e hint).surroundings).trans rfl
  rw [send_eq]
  cases hl : t.left? e w with
  | none =>
    have hd := fst_discard (nextPlace w) e (filtered t w e hint)
    rw [hfil, hw.discard e] at hd
    dsimp only
    split
    · rcases hdis : (filtered t w e hint).discard (nextPlace w) e with ⟨_ | fault, w₁⟩
      · rfl
      · rw [hdis] at hd
        cases hd
    · rfl
  | some left =>
    dsimp only
    cases hr : t.queue.refusal? with
    | none => rw [Queue.submit_of_refusal?_eq_none hr]; rfl
    | some reason =>
      rw [Queue.submit_of_refusal?_eq_some hr]
      have hrej (task : Task) : (handler.reject .caller task reason (handler.log .caller (some task)
          (.jobRejected reason t.queue.occupied) (filtered t w e hint))).1 = none :=
        fault?_reject (by show (filtered t w e hint).cache.Whole; rw [hfil]; exact hw) _ _ _
      dsimp only
      rw [hrej]
      rfl

/-! ## Whole runs -/

theorem Scene.cacheFault?_entry (hw : s.world.cache.Whole) (e : Envelope) (hint : Option HintId) :
    (s.entry e hint).cacheFault? = none := by
  have hf := fault?_send hw s.transport e hint
  unfold Record.cacheFault? entry fateOf
  cases s.transport.left? e s.world with
  | none => exact hf
  | some left =>
    cases s.transport.queue.refusal? with
    | none => rfl
    | some reason => exact hf

theorem Ledger.mem_enter {ledger : Ledger} {t : Task} {stage : Stage} {r : Record}
    (hr : r ∈ ledger.enter t stage) : r ∈ ledger ∨ r.fate = .passed t.envelope stage := by
  unfold enter at hr
  split at hr
  next n _ =>
    obtain ⟨m, hm⟩ := List.mem_iff_getElem?.1 hr
    by_cases hn : n = m
    · subst hn
      rw [List.getElem?_modify_eq] at hm
      obtain ⟨r₀, -, rfl⟩ := Option.map_eq_some_iff.1 hm
      exact .inr rfl
    · rw [List.getElem?_modify_ne _ _ hn] at hm
      exact .inl (List.mem_of_getElem? hm)
  · exact .inl hr

theorem Record.cacheFault?_of_fate {r : Record} {e : Envelope} {stage : Stage}
    (hf : r.fate = .passed e stage) : r.cacheFault? = stage.cacheFault? := by
  unfold cacheFault?
  rw [hf]

namespace Scene

theorem cacheFault?_work (hw : s.world.cache.Whole) (hl : ∀ r ∈ s.ledger, r.cacheFault? = none) :
    ∀ r ∈ s.work.ledger, r.cacheFault? = none := by
  have entered {t : Task} {stage : Stage} (hst : stage.cacheFault? = none) :
      ∀ r ∈ s.ledger.enter t stage, r.cacheFault? = none := by
    intro r hr
    rcases Ledger.mem_enter hr with hr | hf
    · exact hl r hr
    · rw [Record.cacheFault?_of_fate hf, hst]
  unfold work
  split
  · exact hl
  · show ∀ r ∈ s.noted, _
    unfold noted
    split
    next t _ =>
      refine entered ?_
      split
      · rfl
      · exact cacheFault?_started hw t
    next t reply _ => exact entered (cacheFault?_arrived hw t _)
    next t _ => exact entered (fault?_reject hw .worker t .cancelled)
    iterate 4 exact hl

theorem cacheFault?_move (hw : s.world.cache.Whole) (hl : ∀ r ∈ s.ledger, r.cacheFault? = none)
    (m : Move) : ∀ r ∈ (s.move m).ledger, r.cacheFault? = none := by
  cases m with
  | send e hint =>
    intro r hr
    rw [show (s.move (.send e hint)).ledger = _ from s.ledger_send e hint] at hr
    rcases List.mem_append.1 hr with hr | hr
    · exact hl r hr
    · rw [List.mem_singleton.1 hr]
      exact cacheFault?_entry hw e hint
  | beginFlush timeoutMs => exact hl
  | endFlush timeoutMs => exact hl
  | beginClose =>
    show ∀ r ∈ (if s.transport.closed then s else _).ledger, _
    split <;> exact hl
  | endClose =>
    show ∀ r ∈ (if s.transport.closed then _ else s).ledger, _
    split <;> exact hl
  | work => exact cacheFault?_work hw hl
  | change c => exact hl

/-- At every moment of the moves from the scene `s`, no call of the cache breaks off. -/
def Unbroken : List Move → Scene → Prop
  | [], s => s.world.cache.Whole
  | m :: more, s => s.world.cache.Whole ∧ Unbroken more (s.move m)

/-- Over a cache on disk every run is unbroken. -/
theorem unbroken_of_disk {c : DiskCache} (hb : s.Balanced) (hd : s.world.cache = .disk c)
    (moves : List Move) : Unbroken moves s := by
  induction moves generalizing s with
  | nil =>
    rw [Unbroken, hd]
    exact whole_disk c
  | cons m more ih =>
    refine ⟨?_, ih (hb.move m) ((hb.passes m).advance.disk hd)⟩
    rw [hd]
    exact whole_disk c

/-- No submission of an unbroken run is stopped by the cache. -/
theorem cacheFault?_of_run {moves : List Move} (hu : Unbroken moves s)
    (hl : ∀ r ∈ s.ledger, r.cacheFault? = none) :
    ∀ r ∈ (run moves s).ledger, r.cacheFault? = none := by
  induction moves generalizing s with
  | nil => exact hl
  | cons m more ih => exact ih hu.2 (cacheFault?_move hu.1 hl m)

end Scene
end Transport
end Courier
