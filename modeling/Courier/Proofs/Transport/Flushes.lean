import Courier.Proofs.Transport.Calls

/-!
# Who hears that an envelope is stored

A caller who waits for the disk is notified by the task that stored the envelope. The disposal of a
task stores the envelope too, and notifies nobody. `Record.persisting` is the table of both, and
`heeded_iff_of_run` says that a submission keeps to `Heeded` exactly if its envelope was not stored by
a disposal.
-/

namespace Courier

/-- Whether an envelope is stored. -/
def Event.isStore : Event → Bool
  | .store .. => true
  | .log _ | .discard _ | .askGate _ | .send _ | .setRetry .. | .setResult .. | .markFlushed _ => false

/-- Whether an envelope is stored or a hint is notified of that. -/
def Event.isPersisting : Event → Bool
  | .store .. | .markFlushed _ => true
  | .log _ | .discard _ | .askGate _ | .send _ | .setRetry .. | .setResult .. => false

/-- The hint `id` is notified once if an envelope is stored, and not before that. Without a store it
is not notified. -/
def Heeded (id : HintId) (events : List Event) : Prop :=
  events.count (.markFlushed id) = (if events.any Event.isStore then 1 else 0) ∧
    events.Pairwise fun e e' => e = .markFlushed id → e'.isStore = false

/-- Only stores and notifications matter. -/
theorem heeded_filter (id : HintId) (events : List Event) :
    Heeded id (events.filter Event.isPersisting) ↔ Heeded id events := by
  have hc : (events.filter Event.isPersisting).count (.markFlushed id) =
      events.count (.markFlushed id) := List.count_filter rfl
  have ha : (events.filter Event.isPersisting).any Event.isStore = events.any Event.isStore := by
    rw [List.any_filter]
    congr 1
    funext e
    cases e <;> rfl
  have only (e e' : Event) : (e.isPersisting = true → e'.isPersisting = true →
      e = .markFlushed id → e'.isStore = false) ↔ (e = .markFlushed id → e'.isStore = false) := by
    refine ⟨fun h he => ?_, fun h _ _ => h⟩
    cases e' with
    | store => exact h (by rw [he]; rfl) rfl he
    | _ => rfl
  rw [Heeded, Heeded, hc, ha, List.pairwise_filter]
  simp only [only]

namespace Transport

open Collaborators

variable {id : HintId} {r : Record}

/-! ## The table -/

namespace Record

/-- Whether the envelope was given to the cache and the hint was not notified. -/
def isUnheard (r : Record) : Bool :=
  match r.fate with
  | .passed _ (.rejected ..) | .passed _ (.cancelled _) => true
  | .passed _ (.started s) => ! s.isStored
  | .dropped _ | .passed _ .waiting | .passed _ .dropping => false

/-- What is done about the disk for an envelope that is not in the cache, under a hint that is
notified. -/
def persisting (r : Record) (id : HintId) : List Event :=
  match r.fate with
  | .passed left (.rejected ..) | .passed left (.cancelled _) => [.store left true]
  | .passed left (.started s) => .store left true :: if s.isStored then [.markFlushed id] else []
  | .dropped _ | .passed _ .waiting | .passed _ .dropping => []

end Record

/-! ## From calls to the table -/

theorem filter_asking (s : Standing) : (asking s).filter Event.isPersisting = [] := by
  unfold asking
  split <;> rfl

theorem filter_callsOfRun {can : Capabilities} (hf : can.flush = true) (hc : can.cached = false)
    (left : Envelope) (s : Standing) :
    (callsOfRun left (some id) can s).filter Event.isPersisting =
      .store left true :: if s.isStored then [.markFlushed id] else [] := by
  have hstore : (if can.cached then [] else [Event.store left (some id).isSome]).filter
      Event.isPersisting = [.store left true] := by
    rw [hc]
    rfl
  have hsend : (if s.isSent then [Event.send left] else []).filter Event.isPersisting = [] := by
    split <;> rfl
  have hdiscard : (if s.isDelivered && ! can.cached then [Event.discard left] else []).filter
      Event.isPersisting = [] := by
    split <;> rfl
  have hnotify : (if s.isStored then notifying can (some id) else []).filter Event.isPersisting =
      if s.isStored then [.markFlushed id] else [] := by
    rw [notifying, if_pos hf]
    split <;> rfl
  simp only [callsOfRun, List.filter_append, hstore, hnotify, filter_asking, hsend, hdiscard,
    List.append_nil, List.singleton_append]

theorem filter_calls (hh : r.hint = some id) (hf : r.can.flush = true) (hc : r.can.cached = false) :
    r.calls.filter Event.isPersisting = r.persisting id := by
  unfold Record.calls Record.persisting
  rw [hh, hc]
  cases r.fate with
  | dropped fault => rfl
  | passed left stage =>
    cases stage with
    | rejected reason fault => rfl
    | waiting => rfl
    | dropping => rfl
    | cancelled fault => rfl
    | started s => exact filter_callsOfRun hf hc left s

theorem filter_effects {n : SubmissionId} (hh : r.hint = some id) (hf : r.can.flush = true)
    (hc : r.can.cached = false) : (r.effects n).filter Event.isPersisting = r.persisting id := by
  have he : (r.effects n).filter Event.isPersisting =
      ((r.effects n).filter Event.isCall).filter Event.isPersisting := by
    rw [List.filter_filter]
    congr 1
    funext e
    cases e <;> rfl
  rw [he, calls_effects, filter_calls hh hf hc]

theorem heeded_persisting : Heeded id (r.persisting id) ↔ r.isUnheard = false := by
  unfold Record.persisting Record.isUnheard
  cases r.fate with
  | dropped fault => simp [Heeded]
  | passed left stage =>
    cases stage with
    | rejected reason fault => simp [Heeded, Event.isStore]
    | waiting => simp [Heeded]
    | dropping => simp [Heeded]
    | cancelled fault => simp [Heeded, Event.isStore]
    | started s => cases hs : s.isStored <;> simp [Heeded, Event.isStore, hs]

/-! ## Whole runs -/

/-- **Notifications.** Take a submission of any run of a transport, with an envelope that is not in the
cache and a hint that is notified of the store. It is stored and notified as its record says: a task
that runs stores the envelope and notifies the hint once, and then goes on, but a submission that is
rejected or cancelled has its envelope stored and hears nothing of it. -/
theorem heeded_iff_of_run {settings : TransportSettings} {limited : Bool} {w w' : Collaborators}
    {t : Transport} (hu : Unused w) (hs : start settings limited w = (.ok t, w'))
    (moves : List Move) :
    let s := Scene.run moves ⟨t, w', []⟩
    s.ledger.length = s.world.submissions ∧ Scene.Recorded moves ⟨t, w', []⟩ ∧
    ∀ (n : SubmissionId) (r : Record), s.ledger[n]? = some r → ∀ id, r.hint = some id →
      r.can.flush = true → r.can.cached = false →
      (s.world.journal.effects n).filter Event.isPersisting = r.persisting id ∧
      (Heeded id (s.world.journal.effects n) ↔ r.isUnheard = false) := by
  intro s
  have hb₀ := balanced_start hu hs
  have hb : s.Balanced := hb₀.run moves
  refine ⟨hb.booked.length, hb₀.recorded rfl moves, fun n r hr id hh hf hc => ?_⟩
  have he : (r.effects n).filter Event.isPersisting = r.persisting id := filter_effects hh hf hc
  rw [hb.booked.effects n r hr]
  refine ⟨he, ?_⟩
  rw [← heeded_filter, he]
  exact heeded_persisting

/-- An envelope that is cancelled on the worker is stored, and its hint is not notified. -/
theorem unheeded_of_cancelled :
    let effects := hintedScene.world.journal.effects 1
    effects.filter Event.isPersisting = [.store (sampleEnvelope "second") true] ∧
      ¬ Heeded 1 effects := by
  have hs : start sampleSettings false hintedWorld = _ :=
    start_of_ne_zero (by decide) false hintedWorld
  obtain ⟨-, -, told⟩ := heeded_iff_of_run ⟨rfl, fun _ hl => by cases hl⟩ hs hintedMoves
  have second := told 1 ⟨sampleEnvelope "second", some 1, Hint.flush.capabilities,
    .passed (sampleEnvelope "second") (.cancelled none)⟩ rfl 1 rfl rfl rfl
  refine ⟨second.1, fun h => ?_⟩
  cases second.2.1 h

end Transport
end Courier
