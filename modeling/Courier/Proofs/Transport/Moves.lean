import Courier.Proofs.Transport.Ledger

/-!
# What a move does

`grows_reject`, `grows_filter` and `Scene.send_spec` say what disposing of a task, the limits and a
submission do to the world, as growth of the journal.
-/

namespace Courier.Transport

open Collaborators

variable {s s' : Scene} {w w' : Collaborators}

/-! ## Disposing of a task -/

/-- Disposing of a task breaks off if storing its envelope does. -/
theorem fst_reject (side : Side) (t : Task) (reason : RejectReason) (w : Collaborators) :
    (reject side t reason w).1 =
      if (w.capabilities t.hint).cached then none else w.cache.storeFault? t.envelope := by
  have hs := fst_store (t.place side) t.envelope t.hint.isSome w
  unfold reject
  by_cases hc : (w.capabilities t.hint).cached = true
  · simp only [if_pos hc]
  · simp only [if_neg hc]
    rw [← hs]
    rcases w.store (t.place side) t.envelope t.hint.isSome with ⟨_ | fault, w₁⟩ <;> rfl

/-- Disposing of a task breaks off only where an envelope is stored. -/
theorem cause_of_reject {side : Side} {t : Task} {reason : RejectReason} {fault : Fault}
    (h : (reject side t reason w).1 = some fault) :
    (w.capabilities t.hint).cached = false ∧ w.cache.storeFault? t.envelope = some fault := by
  rw [fst_reject] at h
  split at h
  · cases h
  next hc => exact ⟨by simpa using hc, h⟩

theorem grows_reject (side : Side) (t : Task) (reason : RejectReason) (w : Collaborators) :
    Grows (t.place side) (rejecting t (w.capabilities t.hint) (reject side t reason w).1) w
      (reject side t reason w).2 := by
  have signal (w₁ : Collaborators) := grows_signalFailure (t.place side) t.hint true w₁
  unfold reject rejecting
  by_cases hc : (w.capabilities t.hint).cached = true
  · simp only [if_pos hc, if_true, List.nil_append]
    exact (signal w).log _
  · simp only [if_neg hc]
    have g := grows_store (t.place side) t.envelope t.hint.isSome w
    rcases hw : w.store (t.place side) t.envelope t.hint.isSome with ⟨_ | fault, w₁⟩
    · rw [hw] at g
      have g' := signal w₁
      rw [capabilities_congr g.surroundings] at g'
      exact g.trans (g'.log _)
    · rw [hw] at g
      exact g.of_eq (by simp)

theorem grows_refuse (t : Task) (reason : RejectReason) (occupied : Nat) (w : Collaborators) :
    let w₁ := handler.log .caller (some t) (.jobRejected reason occupied) w
    Grows (t.place .caller)
      (rejecting t (w.capabilities t.hint) (handler.reject .caller t reason w₁).1) w
      (handler.reject .caller t reason w₁).2 := by
  intro w₁
  have gl : Grows (t.place .caller) [] w w₁ := grows_log _ _ _
  have gr := grows_reject .caller t reason w₁
  rw [capabilities_congr gl.surroundings] at gr
  exact gl.trans gr

/-! ## The limits -/

theorem fst_filter (t : Transport) (p : Place) (e : Envelope) (hint : Option HintId)
    (w : Collaborators) : (t.filter p e hint w).1 = t.left? e w := by
  unfold Transport.filter left?
  split
  · exact Collaborators.fst_filter p e hint w
  · rfl

theorem grows_filter (t : Transport) (p : Place) (e : Envelope) (hint : Option HintId)
    (w : Collaborators) :
    Grows p (if t.left? e w = none then
      reporting (w.capabilities hint) hint false ++ retrying (w.capabilities hint) hint false
      else []) w (t.filter p e hint w).2 := by
  unfold Transport.filter left?
  split
  · exact Collaborators.grows_filter p e hint w
  · exact .refl p w

theorem left?_congr (h : w'.surroundings = w.surroundings) (t : Transport) (e : Envelope) :
    t.left? e w' = t.left? e w := by
  simp only [left?, limits_congr h, clock_congr h]

/-! ## Submitting -/

/-- The world in which the next submission has its number. -/
def numbered (w : Collaborators) : Collaborators := { w with submissions := w.submissions + 1 }

/-- Where the calls of the next submission are made. -/
def nextPlace (w : Collaborators) : Place := ⟨.caller, some w.submissions⟩

/-- What a submission does to the transport: its task is the last one that waits, or nothing. -/
inductive Enters (s : Scene) (r : Record) : Transport → Prop where
  | accepted (left : Envelope) (fate : r.fate = .passed left .waiting)
      (room : s.transport.queue.refusal? = none) :
      Enters s r { s.transport with queue := { s.transport.queue with
        occupied := s.transport.queue.occupied + 1
        waiting := s.transport.queue.waiting ++ [r.task s.world.submissions left] } }
  | dropped (fault : Option Fault) (fate : r.fate = .dropped fault) : Enters s r s.transport
  | rejected (left : Envelope) (reason : RejectReason) (fault : Option Fault)
      (fate : r.fate = .passed left (.rejected reason fault)) : Enters s r s.transport

theorem Enters.closed {r : Record} {transport : Transport} (he : Enters s r transport) :
    transport.closed = s.transport.closed ∧
      transport.queue.accepting = s.transport.queue.accepting := by
  cases he <;> exact ⟨rfl, rfl⟩

/-- The record of an envelope that is submitted now. -/
def Scene.entry (s : Scene) (e : Envelope) (hint : Option HintId) : Record :=
  ⟨e, hint, s.world.capabilities hint, s.fateOf e (s.transport.send e hint s.world).1⟩

theorem Scene.entry_from (s : Scene) (e : Envelope) (hint : Option HintId) :
    (s.entry e hint).From s e hint := by
  refine ⟨rfl, rfl, ?_⟩
  unfold Record.left? entry fateOf
  cases hl : s.transport.left? e s.world with
  | none => rfl
  | some left => cases hr : s.transport.queue.refusal? <;> rfl

theorem Scene.ledger_send (s : Scene) (e : Envelope) (hint : Option HintId) :
    (s.send e hint).ledger = s.ledger ++ [s.entry e hint] := rfl

/-- The world in which the limits are asked. A copy in the cache was logged by then. -/
def announced (w : Collaborators) (e : Envelope) (hint : Option HintId) : Collaborators :=
  if (w.capabilities hint).cached then (numbered w).log (nextPlace w) (.storeSkipped e.label)
  else numbered w

theorem grows_announced (w : Collaborators) (e : Envelope) (hint : Option HintId) :
    Grows (nextPlace w) [] (numbered w) (announced w e hint) := by
  unfold announced
  split
  · exact grows_log _ _ _
  · exact .refl _ _

/-- The world after the limits were asked. -/
def filtered (t : Transport) (w : Collaborators) (e : Envelope) (hint : Option HintId) :
    Collaborators :=
  (t.filter (nextPlace w) e hint (announced w e hint)).2

theorem grows_filtered (t : Transport) (w : Collaborators) (e : Envelope) (hint : Option HintId) :
    Grows (nextPlace w) (if t.left? e w = none then
      reporting (w.capabilities hint) hint false ++ retrying (w.capabilities hint) hint false
      else []) (numbered w) (filtered t w e hint) := by
  have g := grows_announced w e hint
  have g' := grows_filter t (nextPlace w) e hint (announced w e hint)
  rw [left?_congr g.surroundings, capabilities_congr g.surroundings] at g'
  exact g.trans g'

theorem send_eq (t : Transport) (e : Envelope) (hint : Option HintId) (w : Collaborators) :
    t.send e hint w = match t.left? e w with
      | none =>
        if (w.capabilities hint).cached then
          match (filtered t w e hint).discard (nextPlace w) e with
          | (some fault, w) => (.broken fault, t, w)
          | (none, w) => (.dropped, t, w)
        else (.dropped, t, filtered t w e hint)
      | some left =>
        match t.queue.submit handler
          ⟨left, hint, ! (w.capabilities hint).cached, some w.submissions⟩ (filtered t w e hint) with
        | (.accepted, queue, w) => (.handedOver, { t with queue }, w)
        | (.rejected, queue, w) => (.rejected, { t with queue }, w)
        | (.broken fault, queue, w) => (.broken fault, { t with queue }, w) := by
  have hf : (t.filter (nextPlace w) e hint (announced w e hint)).1 = t.left? e w := by
    rw [fst_filter, left?_congr (grows_announced w e hint).surroundings]
    rfl
  have he : t.filter (nextPlace w) e hint (announced w e hint) =
      (t.left? e w, filtered t w e hint) := by rw [← hf]; rfl
  unfold Transport.send
  dsimp only
  split
  next w₁ hfil =>
    obtain ⟨hl, rfl⟩ := Prod.mk.inj (he.symm.trans hfil)
    rw [hl]
    rfl
  next left w₁ hfil =>
    obtain ⟨hl, rfl⟩ := Prod.mk.inj (he.symm.trans hfil)
    rw [hl]
    rfl

/-- A submission enters the transport as its record says, and has the effects of its record. -/
theorem Scene.send_spec (s : Scene) (e : Envelope) (hint : Option HintId) :
    Enters s (s.entry e hint) (s.send e hint).transport ∧
      Grows (nextPlace s.world) ((s.entry e hint).effects s.world.submissions) (numbered s.world)
        (s.send e hint).world := by
  have g := grows_filtered s.transport s.world e hint
  have hs : (s.send e hint).transport = (s.transport.send e hint s.world).2.1 := rfl
  have hw : (s.send e hint).world = (s.transport.send e hint s.world).2.2 := rfl
  rw [hs, hw, entry, send_eq]
  cases hl : s.transport.left? e s.world with
  | none =>
    rw [if_pos hl] at g
    by_cases hc : (s.world.capabilities hint).cached = true
    · simp only [if_pos hc, fateOf, hl]
      have gd := grows_discard (nextPlace s.world) e (filtered s.transport s.world e hint)
      rcases hd : (filtered s.transport s.world e hint).discard (nextPlace s.world) e with
        ⟨_ | fault, w₁⟩
      · rw [hd] at gd
        refine ⟨.dropped _ rfl, (g.trans gd).of_eq ?_⟩
        simp [Record.effects, hc]
      · rw [hd] at gd
        refine ⟨.dropped _ rfl, (g.trans gd).of_eq ?_⟩
        simp [Record.effects, hc]
    · simp only [if_neg hc, fateOf, hl]
      refine ⟨.dropped _ rfl, g.of_eq ?_⟩
      simp [Record.effects, hc]
  | some left =>
    rw [if_neg (by simp [hl])] at g
    cases hr : s.transport.queue.refusal? with
    | none =>
      simp only [Queue.submit_of_refusal?_eq_none hr, fateOf, hl, hr]
      exact ⟨.accepted left rfl hr, g⟩
    | some reason =>
      simp only [Queue.submit_of_refusal?_eq_some hr, fateOf, hl, hr]
      have gr := g.trans (grows_refuse
        ⟨left, hint, ! (s.world.capabilities hint).cached, some s.world.submissions⟩ reason
        s.transport.queue.occupied (filtered s.transport s.world e hint))
      rw [capabilities_congr g.surroundings] at gr
      generalize handler.reject .caller _ reason _ = rejected at gr ⊢
      obtain ⟨_ | fault, w₁⟩ := rejected
      · exact ⟨.rejected left reason _ rfl, gr⟩
      · exact ⟨.rejected left reason _ rfl, gr⟩

end Courier.Transport
