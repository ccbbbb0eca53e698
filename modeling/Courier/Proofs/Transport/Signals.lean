import Courier.Proofs.Transport.Attribution
import Courier.Proofs.Transport.Draining
import Courier.Proofs.Transport.Unbroken

/-!
# What hints are told about the outcome

`Record.signals` is the table of what the hint of a submission is told, by what became of the
submission: a result once it is over, and whether another attempt is worthwhile.
`signals_of_run` says that over a cache that never breaks off a hint is told exactly this, and nothing
before the envelope is stored. `orderly_iff_of_run` says for which submissions the result is not the
last word: for those that are turned away, as these hear of the result first.
-/

namespace Courier

/-! ## Signals -/

/-- Whether something that happened tells a hint about the outcome. -/
def Event.isSignal : Event → Bool
  | .setRetry .. | .setResult .. => true
  | .log _ | .store .. | .discard _ | .askGate _ | .send _ | .markFlushed _ => false

/-- The result, if an event reports it to the hint `id`. -/
def Event.result? (id : HintId) : Event → Option Bool
  | .setResult i value => if i = id then some value else none
  | .log _ | .store .. | .discard _ | .askGate _ | .send _ | .setRetry .. | .markFlushed _ => none

/-- The retry flag, if an event gives it to the hint `id`. -/
def Event.retryFlag? (id : HintId) : Event → Option Bool
  | .setRetry i value => if i = id then some value else none
  | .log _ | .store .. | .discard _ | .askGate _ | .send _ | .setResult .. | .markFlushed _ => none

theorem Event.hint?_of_result? {id : HintId} {e : Event} (he : (e.result? id).isSome) :
    e.hint? = some id := by
  unfold result? at he
  split at he
  · split at he
    next hi => rw [← hi]; rfl
    · cases he
  iterate 7 cases he

theorem Event.hint?_of_retryFlag? {id : HintId} {e : Event} (he : (e.retryFlag? id).isSome) :
    e.hint? = some id := by
  unfold retryFlag? at he
  split at he
  · split at he
    next hi => rw [← hi]; rfl
    · cases he
  iterate 7 cases he

/-- The results that a hint was told, the first one first. -/
def Journal.results (journal : Journal) (id : HintId) : List Bool :=
  journal.filterMap fun l => l.event.result? id

/-- The retry flags that a hint was given, the first one first. -/
def Journal.retries (journal : Journal) (id : HintId) : List Bool :=
  journal.filterMap fun l => l.event.retryFlag? id

/-- Whenever the hint `id` is told about the outcome, the envelope was stored for the submission
before. -/
def Journal.StoredFirst (journal : Journal) (n : SubmissionId) (e : Envelope) (id : HintId) : Prop :=
  ∀ before l after, journal = before ++ l :: after → l.event.isSignal = true →
    l.event.hint? = some id → ∃ l₀ ∈ before, l₀.place.submission = some n ∧ l₀.event = .store e true

/-- No retry flag is given after a result. -/
def Orderly (events : List Event) : Prop :=
  events.Pairwise fun e e' => ∀ id, (e.result? id).isSome → ¬ (e'.retryFlag? id).isSome

namespace Transport

open Collaborators

variable {id : HintId} {r : Record}

/-! ## The table -/

namespace Record

/-- Whether the server took the envelope. -/
def isDelivered (r : Record) : Bool :=
  match r.fate with
  | .passed _ (.started standing) => standing.isDelivered
  | .dropped _ | .passed _ (.rejected ..) | .passed _ .waiting | .passed _ .dropping
  | .passed _ (.cancelled _) => false

/-- The result of a submission that is over. -/
def verdict (r : Record) : Bool :=
  match r.fate with
  | .passed _ (.started (.ended (.delivered _))) => true
  | _ => false

/-- What is said about another attempt. Nothing is said about an envelope that the server took or
refused, and nothing if the task broke off. -/
def advice? (r : Record) : Option Bool :=
  match r.fate with
  | .dropped _ => some false
  | .passed _ (.rejected ..) | .passed _ (.cancelled _) | .passed _ (.started (.ended .gateClosed))
  | .passed _ (.started (.ended (.failed _))) => some true
  | _ => none

/-- Whether a submission was turned away: the limits dropped it, or its task will not run. -/
def isTurnedAway (r : Record) : Bool :=
  match r.fate with
  | .dropped _ | .passed _ (.rejected ..) | .passed _ (.cancelled _) => true
  | .passed _ .waiting | .passed _ .dropping | .passed _ (.started _) => false

/-- Whether disposing of a task broke off. -/
def isCutShort (r : Record) : Bool :=
  match r.fate with
  | .passed _ (.rejected _ (some _)) | .passed _ (.cancelled (some _)) => true
  | _ => false

/-- What is reported to the hint. -/
def reports (r : Record) : List Event := if r.isOver then reporting r.can r.hint r.verdict else []

/-- What the hint is told about another attempt. -/
def advises (r : Record) : List Event :=
  match r.advice? with
  | some value => retrying r.can r.hint value
  | none => []

/-- What the hint is told about the outcome, the first thing first. A task reports last, but whoever is
turned away hears of the result first. -/
def signals (r : Record) : List Event :=
  if r.isCutShort then []
  else if r.isTurnedAway then r.reports ++ r.advises
  else r.advises ++ r.reports

end Record

/-! ## From effects to signals -/

theorem signals_reporting (can : Capabilities) (hint : Option HintId) (value : Bool) :
    (reporting can hint value).filter Event.isSignal = reporting can hint value := by
  refine List.filter_eq_self.2 fun e he => ?_
  obtain ⟨id, -, rfl⟩ := mem_reporting he
  rfl

theorem signals_retrying (can : Capabilities) (hint : Option HintId) (value : Bool) :
    (retrying can hint value).filter Event.isSignal = retrying can hint value := by
  refine List.filter_eq_self.2 fun e he => ?_
  obtain ⟨id, -, rfl⟩ := mem_retrying he
  rfl

theorem signals_discarding (t : Task) : t.discarding.filter Event.isSignal = [] := by
  refine List.filter_eq_nil_iff.2 fun e he => ?_
  rw [Task.mem_discarding he]
  exact Bool.false_ne_true

theorem signals_opening (t : Task) (can : Capabilities) (s : Standing) :
    (t.opening can s).filter Event.isSignal = [] := by
  refine List.filter_eq_nil_iff.2 fun e he => ?_
  rcases Task.mem_opening he with (rfl | ⟨id, -, rfl⟩) | ⟨connected, rfl⟩ | rfl
  iterate 4 exact Bool.false_ne_true

theorem signals_rejecting (t : Task) (can : Capabilities) (fault : Option Fault) :
    (rejecting t can fault).filter Event.isSignal =
      if fault = none then reporting can t.hint false ++ retrying can t.hint true else [] := by
  unfold rejecting
  rw [List.filter_append]
  have hs : (if can.cached then [] else [Event.store t.envelope t.hint.isSome]).filter
      Event.isSignal = [] := by
    split <;> rfl
  rw [hs, List.nil_append]
  split
  · rw [List.filter_append, signals_reporting, signals_retrying]
  · rfl

/-- The signals among the effects of a record are those of the table. -/
theorem signals_effects (r : Record) (n : SubmissionId) :
    (r.effects n).filter Event.isSignal = r.signals := by
  unfold Record.effects Record.signals Record.reports Record.advises Record.isOver Record.verdict
    Record.advice? Record.isTurnedAway Record.isCutShort
  cases r.fate with
  | dropped fault =>
    have hd : (if r.can.cached then [Event.discard r.envelope] else []).filter Event.isSignal = [] := by
      split <;> rfl
    simp [List.filter_append, signals_reporting, signals_retrying, hd]
  | passed left stage =>
    cases stage with
    | rejected reason fault =>
      cases fault <;> simp [Stage.effects, signals_rejecting, Record.task]
    | waiting => rfl
    | dropping => rfl
    | cancelled fault =>
      cases fault <;> simp [Stage.effects, signals_rejecting, Record.task]
    | started s =>
      -- a run says nothing of the outcome before the reply, so the table is about its end
      have hh : (r.task n left).hint = r.hint := rfl
      show ((r.task n left).effects r.can s).filter Event.isSignal = _
      rw [Task.effects, List.filter_append, signals_opening, List.nil_append]
      rcases s with reply | (fault | fault | fault | _ | fault | code | reason | code | fault) <;>
        simp [Task.closing, hh, signals_reporting, signals_retrying, signals_discarding]

/-! ## Results and retry flags -/

theorem isSignal_of_result? {e : Event} (he : (e.result? id).isSome) : e.isSignal = true := by
  cases e <;> first | rfl | cases he

theorem isSignal_of_retryFlag? {e : Event} (he : (e.retryFlag? id).isSome) : e.isSignal = true := by
  cases e <;> first | rfl | cases he

theorem filterMap_signals {α : Type} {f : Event → Option α}
    (hf : ∀ e, (f e).isSome → e.isSignal = true) (r : Record) (n : SubmissionId) :
    (r.effects n).filterMap f = r.signals.filterMap f := by
  rw [← signals_effects r n, List.filterMap_filter]
  refine List.filterMap_congr fun e _ => ?_
  cases he : f e with
  | none => split <;> rfl
  | some a => rw [if_pos (hf e (by rw [he]; rfl))]

theorem results_reports (hh : r.hint = some id) : r.reports.filterMap (Event.result? id) =
    if r.can.result && r.isOver then [r.verdict] else [] := by
  unfold Record.reports reporting
  rw [hh]
  cases r.isOver <;> cases r.can.result <;> simp [Event.result?]

theorem results_advises (r : Record) : r.advises.filterMap (Event.result? id) = [] := by
  unfold Record.advises
  split
  · refine List.filterMap_eq_nil_iff.2 fun e he => ?_
    obtain ⟨id, -, rfl⟩ := mem_retrying he
    rfl
  · rfl

theorem retries_reports (r : Record) : r.reports.filterMap (Event.retryFlag? id) = [] := by
  unfold Record.reports
  split
  · refine List.filterMap_eq_nil_iff.2 fun e he => ?_
    obtain ⟨id, -, rfl⟩ := mem_reporting he
    rfl
  · rfl

theorem retries_advises (hh : r.hint = some id) : r.advises.filterMap (Event.retryFlag? id) =
    if r.can.retry then r.advice?.toList else [] := by
  unfold Record.advises retrying
  rw [hh]
  cases r.advice? <;> cases r.can.retry <;> simp [Event.retryFlag?]

theorem results_signals (hh : r.hint = some id) (hc : r.isCutShort = false) :
    r.signals.filterMap (Event.result? id) =
      if r.can.result && r.isOver then [r.verdict] else [] := by
  unfold Record.signals
  rw [hc]
  split
  next h => cases h
  · split <;> simp [results_reports hh, results_advises]

theorem retries_signals (hh : r.hint = some id) (hc : r.isCutShort = false) :
    r.signals.filterMap (Event.retryFlag? id) = if r.can.retry then r.advice?.toList else [] := by
  unfold Record.signals
  rw [hc]
  split
  next h => cases h
  · split <;> simp [retries_advises hh, retries_reports]

/-! ## The cache does not break off -/

theorem isCutShort_of_cacheFault? (hc : r.cacheFault? = none) : r.isCutShort = false := by
  unfold Record.cacheFault? at hc
  unfold Record.isCutShort
  split <;> simp_all [Stage.cacheFault?]

theorem verdict_of_cacheFault? (hc : r.cacheFault? = none) : r.verdict = r.isDelivered := by
  unfold Record.cacheFault? at hc
  unfold Record.verdict Record.isDelivered
  cases hf : r.fate with
  | dropped fault => rfl
  | passed left stage =>
    rw [hf] at hc
    rcases stage with _ | _ | _ | _ | _ | (_ | _ | _ | _ | _ | _ | _ | _ | fault)
    iterate 13 rfl
    cases hc

/-! ## The envelope is stored first -/

/-- Whatever is done for an envelope that is not in the cache is done after it is stored. -/
theorem effects_of_uncached {n : SubmissionId} {left : Envelope} (hc : r.can.cached = false)
    (hl : r.left? = some left) :
    r.effects n = [] ∨ ∃ more, r.effects n = .store left r.hint.isSome :: more := by
  unfold Record.left? at hl
  unfold Record.effects
  split at hl
  · cases hl
  next stage _ =>
    cases hl
    have hr (fault : Option Fault) : ∃ more, rejecting (r.task n left) r.can fault =
        .store left r.hint.isSome :: more := ⟨_, by rw [rejecting, hc]; rfl⟩
    have hs : (r.task n left).storing = [.store left r.hint.isSome] := by
      rw [Task.storing, Record.task, hc]
      rfl
    cases stage with
    | rejected reason fault => exact .inr (hr fault)
    | waiting => exact .inl rfl
    | dropping => exact .inl rfl
    | cancelled fault => exact .inr (hr fault)
    | started s =>
      refine .inr ?_
      show ∃ more, (r.task n left).effects r.can s = _
      rcases s with reply | (fault | fault | fault | _ | fault | code | reason | code | fault) <;>
        simp [Task.effects, Task.opening, Task.preparing, hs]

/-- If the effects of a submission begin with the store, its hint hears of nothing before. -/
theorem storedFirst_of_effects {journal : Journal} {owners : List (Option HintId)} {n : SubmissionId}
    {left : Envelope} (ha : Attributed journal owners) (hn : owners[n]? = some (some id))
    (hd : (owners.filterMap fun o => o).Nodup)
    (he : journal.effects n = [] ∨ ∃ more, journal.effects n = .store left true :: more) :
    journal.StoredFirst n left id := by
  rintro before l after rfl hsignal hid
  obtain ⟨m, hm, ho⟩ := ha l (List.mem_append_right _ List.mem_cons_self) id hid
  obtain rfl := eq_of_getElem?_of_nodup hd hn ho
  rw [Journal.effects_append, Journal.effects_cons hm (Event.effect?_of_hint? hid)] at he
  rcases he with he | ⟨more, he⟩
  · exact absurd he (by simp)
  · cases hb : Journal.effects before n with
    | nil =>
      rw [hb, List.nil_append, List.cons.injEq] at he
      rw [he.1] at hsignal
      cases hsignal
    | cons e rest =>
      rw [hb, List.cons_append, List.cons.injEq] at he
      have hmem : Event.store left true ∈ Journal.effects before n := by
        rw [hb, he.1]
        exact List.mem_cons_self
      obtain ⟨l₀, hl₀, hp, hst⟩ := Journal.mem_effects.1 hmem
      exact ⟨l₀, hl₀, hp, Event.eq_of_effect? hst⟩

/-! ## Whole runs -/

/-- **Signals.** Take any run of a transport over a cache that never breaks off, in which no hint is
submitted twice. Every submission has a record, and its hint is told about the outcome what the record
says: success or failure once, if the submission is over, and nothing before, and whether another
attempt is worthwhile. Unless the envelope was in the cache, it is stored before the hint is told
anything of this. -/
theorem signals_of_run {settings : TransportSettings} {limited : Bool} {w w' : Collaborators}
    {t : Transport} (hu : Unused w) (hm : w.journal.Mute)
    (hs : start settings limited w = (.ok t, w')) (moves : List Move)
    (hw : Scene.Unbroken moves ⟨t, w', []⟩)
    (hd : ((moves.flatMap Move.sends).filterMap Prod.snd).Nodup) :
    let s := Scene.run moves ⟨t, w', []⟩
    s.ledger.length = s.world.submissions ∧ Scene.Recorded moves ⟨t, w', []⟩ ∧
    ∀ (n : SubmissionId) (r : Record), s.ledger[n]? = some r → ∀ id, r.hint = some id →
      s.world.journal.results id = (if r.can.result && r.isOver then [r.isDelivered] else []) ∧
      s.world.journal.retries id = (if r.can.retry then r.advice?.toList else []) ∧
      ∀ left, r.can.cached = false → r.left? = some left →
        s.world.journal.StoredFirst n left id := by
  intro s
  have hb₀ := balanced_start hu hs
  have hb : s.Balanced := hb₀.run moves
  refine ⟨hb.booked.length, hb₀.recorded rfl moves, fun n r hr id hh => ?_⟩
  have ha : Attributed s.world.journal s.ledger.hints := attributed_of_run hu hm hs moves
  have hn : s.ledger.hints[n]? = some (some id) := by
    rw [Ledger.hints, List.getElem?_map, hr, Option.map_some, hh]
  have hnodup : (s.ledger.hints.filterMap fun o => o).Nodup := by
    rw [Scene.hints_run rfl moves, List.filterMap_map]
    exact hd
  have hcache : r.cacheFault? = none :=
    Scene.cacheFault?_of_run hw (fun _ h => by cases h) r (List.mem_of_getElem? hr)
  have hcut := isCutShort_of_cacheFault? hcache
  have heffects := hb.booked.effects n r hr
  refine ⟨?_, ?_, fun left hc hl => ?_⟩
  · rw [Journal.results, filterMap_of_attributed ha (fun _ => Event.hint?_of_result?) hn hnodup,
      heffects, filterMap_signals (fun _ => isSignal_of_result?), results_signals hh hcut,
      verdict_of_cacheFault? hcache]
  · rw [Journal.retries, filterMap_of_attributed ha (fun _ => Event.hint?_of_retryFlag?) hn hnodup,
      heffects, filterMap_signals (fun _ => isSignal_of_retryFlag?), retries_signals hh hcut]
  · refine storedFirst_of_effects ha hn hnodup ?_
    rw [heffects]
    have h := effects_of_uncached (n := n) hc hl
    rwa [hh] at h

/-- Success is reported for the first envelope, and for the second one failure, with the advice to
try again. -/
theorem signals_of_cancelled :
    hintedScene.world.journal.results 0 = [true] ∧ hintedScene.world.journal.retries 0 = [] ∧
      hintedScene.world.journal.results 1 = [false] ∧
      hintedScene.world.journal.retries 1 = [true] := by
  have hm : hintedWorld.journal.Mute := fun _ hl => by cases hl
  have hs : start sampleSettings false hintedWorld = _ :=
    start_of_ne_zero (by decide) false hintedWorld
  have hw : Cache.none.Whole := whole_none
  obtain ⟨-, -, signals⟩ := signals_of_run ⟨rfl, fun _ hl => by cases hl⟩ hm hs hintedMoves
    ⟨hw, hw, hw, hw, hw, hw, hw, hw, hw, hw, hw⟩ (by decide)
  have first := signals 0 ⟨sampleEnvelope "first", some 0, Hint.flush.capabilities,
    .passed (sampleEnvelope "first") (.started (.ended (.delivered (some 200))))⟩ rfl 0 rfl
  have second := signals 1 ⟨sampleEnvelope "second", some 1, Hint.flush.capabilities,
    .passed (sampleEnvelope "second") (.cancelled none)⟩ rfl 1 rfl
  exact ⟨first.1, first.2.1, second.1, second.2.1⟩

/-! ## The last word -/

theorem orderly_iff_signals (r : Record) (n : SubmissionId) :
    Orderly (r.effects n) ↔ Orderly r.signals := by
  have only (e e' : Event) : (∀ id, (e.result? id).isSome → ¬ (e'.retryFlag? id).isSome) ↔
      (e.isSignal = true → e'.isSignal = true →
        ∀ id, (e.result? id).isSome → ¬ (e'.retryFlag? id).isSome) :=
    ⟨fun h _ _ => h, fun h id hs hr => h (isSignal_of_result? hs) (isSignal_of_retryFlag? hr) id hs hr⟩
  rw [← signals_effects r n, Orderly, Orderly, List.pairwise_filter]
  exact ⟨fun h => h.imp fun h => (only _ _).1 h, fun h => h.imp fun h => (only _ _).2 h⟩

theorem isOver_of_isTurnedAway (ht : r.isTurnedAway = true) :
    r.isOver = true ∧ ∃ value, r.advice? = some value := by
  unfold Record.isTurnedAway at ht
  unfold Record.isOver Record.advice?
  split at ht
  iterate 3 next hf => rw [hf]; exact ⟨rfl, _, rfl⟩
  iterate 3 cases ht

/-- A hint that can be told everything hears the result last, unless its submission was turned away. -/
theorem orderly_signals_iff (hh : r.hint = some id) (hretry : r.can.retry = true)
    (hresult : r.can.result = true) :
    Orderly r.signals ↔ r.isTurnedAway = false ∨ r.isCutShort = true := by
  have hreports : r.reports = if r.isOver then [.setResult id r.verdict] else [] := by
    simp [Record.reports, reporting, hh, hresult]
  have hadvises : r.advises = r.advice?.toList.map (.setRetry id) := by
    unfold Record.advises retrying
    rw [hh, hretry]
    cases r.advice? <;> rfl
  unfold Record.signals
  rw [hreports, hadvises]
  cases hc : r.isCutShort with
  | true => simp [Orderly]
  | false =>
    cases ht : r.isTurnedAway with
    | false =>
      cases r.advice? <;> cases r.isOver <;> simp [Orderly, Event.result?, Event.retryFlag?]
    | true =>
      obtain ⟨ho, value, ha⟩ := isOver_of_isTurnedAway ht
      simp [Orderly, Event.result?, Event.retryFlag?, ho, ha]

/-- **The last word.** In every run of a transport a hint that can be told about another attempt and
about the result hears the result last, exactly if its submission was not turned away, or disposing of
it broke off before anything was told. A submission that is dropped, rejected or cancelled hears of the
result first. -/
theorem orderly_iff_of_run {settings : TransportSettings} {limited : Bool} {w w' : Collaborators}
    {t : Transport} (hu : Unused w) (hs : start settings limited w = (.ok t, w'))
    (moves : List Move) :
    let s := Scene.run moves ⟨t, w', []⟩
    s.ledger.length = s.world.submissions ∧ Scene.Recorded moves ⟨t, w', []⟩ ∧
    ∀ (n : SubmissionId) (r : Record), s.ledger[n]? = some r →
      (s.world.journal.effects n).filter Event.isSignal = r.signals ∧
      (r.can.retry = true → r.can.result = true →
        (Orderly (s.world.journal.effects n) ↔ r.isTurnedAway = false ∨ r.isCutShort = true)) := by
  intro s
  have hb₀ := balanced_start hu hs
  have hb : s.Balanced := hb₀.run moves
  refine ⟨hb.booked.length, hb₀.recorded rfl moves, fun n r hr => ?_⟩
  rw [hb.booked.effects n r hr]
  refine ⟨signals_effects r n, fun hretry hresult => ?_⟩
  cases hh : r.hint with
  | none =>
    rw [hb.booked.abilities n r hr, hh] at hretry
    cases hretry
  | some id => rw [orderly_iff_signals, orderly_signals_iff hh hretry hresult]

/-- An envelope that is cancelled on the worker hears of the result before it hears whether to try
again. -/
theorem disorderly_of_cancelled :
    let effects := hintedScene.world.journal.effects 1
    effects.filter Event.isSignal = [.setResult 1 false, .setRetry 1 true] ∧ ¬ Orderly effects := by
  have hs : start sampleSettings false hintedWorld = _ :=
    start_of_ne_zero (by decide) false hintedWorld
  obtain ⟨-, -, words⟩ := orderly_iff_of_run ⟨rfl, fun _ hl => by cases hl⟩ hs hintedMoves
  have second := words 1 ⟨sampleEnvelope "second", some 1, Hint.flush.capabilities,
    .passed (sampleEnvelope "second") (.cancelled none)⟩ rfl
  refine ⟨second.1, fun h => ?_⟩
  rcases (second.2 rfl rfl).1 h with ht | hc
  · cases ht
  · cases hc

end Transport
end Courier
