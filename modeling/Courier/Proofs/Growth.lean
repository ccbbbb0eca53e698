import Courier.Collaborators
import Mathlib.Tactic.Common

/-!
# What a call adds to the journal

`Grows p u w w'` says that the world went from `w` to `w'` by calls at the place `p` whose effects
were `u`: the journal has those lines more, the files are what the cache makes of them, the
connection has given its replies, and nothing else changed but what hints remember. There is one
lemma for every call on a collaborator, and `effects_of_grows` reads the effects of one submission
off the journal.
-/

namespace Courier

/-! ## Effects -/

/-- What happened, if it is more than a log line. -/
def Event.effect? : Event → Option Event
  | .log _ => none
  | event => some event

/-- What happened for a submission, apart from log lines, the first thing first. -/
def Journal.effects (journal : Journal) (n : SubmissionId) : List Event :=
  (journal.filter fun l => l.place.submission = some n).filterMap fun l => l.event.effect?

theorem Journal.effects_append (j k : Journal) (n : SubmissionId) :
    Journal.effects (j ++ k) n = Journal.effects j n ++ Journal.effects k n := by
  simp [effects]

theorem Journal.mem_effects {journal : Journal} {n : SubmissionId} {e : Event} :
    e ∈ journal.effects n ↔
      ∃ l ∈ journal, l.place.submission = some n ∧ l.event.effect? = some e := by
  simp [effects, and_assoc]

theorem Journal.effects_cons {l : Entry} {n : SubmissionId} {e : Event}
    (hp : l.place.submission = some n) (he : l.event.effect? = some e) (journal : Journal) :
    Journal.effects (l :: journal) n = e :: journal.effects n := by
  unfold effects
  rw [List.filter_cons_of_pos (by simpa using hp)]
  exact List.filterMap_cons_some (f := fun l : Entry => l.event.effect?) he

/-- The fault by which storing an envelope breaks off. -/
def Cache.storeFault? : Cache → Envelope → Option Fault
  | .recording storeFault _, e => storeFault e
  | .none, _ | .disk _, _ => Option.none

/-- The fault by which discarding an envelope breaks off. -/
def Cache.discardFault? : Cache → Envelope → Option Fault
  | .recording _ discardFault, e => discardFault e
  | .none, _ | .disk _, _ => Option.none

theorem Cache.fault_store (c : Cache) (fs : FileSystem) (e : Envelope) :
    (c.store fs e).fault = c.storeFault? e := by
  cases c <;> rfl

theorem Cache.fault_discard (c : Cache) (fs : FileSystem) (e : Envelope) :
    (c.discard fs e).fault = c.discardFault? e := by
  cases c <;> rfl

/-- The fault by which asking a gate breaks off, or its answer. -/
def Gate.answer (g : Gate) : Except Fault Bool :=
  match g.fault? with
  | some fault => .error fault
  | none => .ok g.isConnected

/-- The files after what happened. -/
def Cache.replay (c : Cache) (fs : FileSystem) : List Event → FileSystem
  | [] => fs
  | .store e _ :: u => c.replay (c.store fs e).files u
  | .discard e :: u => c.replay (c.discard fs e).files u
  | _ :: u => c.replay fs u

theorem Cache.replay_append (c : Cache) (fs : FileSystem) (u v : List Event) :
    c.replay fs (u ++ v) = c.replay (c.replay fs u) v := by
  induction u generalizing fs with
  | nil => rfl
  | cons event u ih => cases event <;> exact ih _

/-- The connection after what happened. -/
def Connection.after (c : Connection) : List Event → Connection
  | [] => c
  | .send _ :: u => c.take.2.after u
  | _ :: u => c.after u

theorem Connection.after_append (c : Connection) (u v : List Event) :
    c.after (u ++ v) = (c.after u).after v := by
  induction u generalizing c with
  | nil => rfl
  | cons event u ih => cases event <;> exact ih _

namespace Collaborators

/-! ## What calls leave alone -/

/-- What no call changes: how the collaborators behave, and what was set up for them. -/
structure Surroundings where
  cache : Cache
  limits : RateLimits
  clock : Instant
  gate : Gate
  latches : Latches
  keys : KeySource
  submissions : Nat
  abilities : List (Capabilities × Option Fault)

/-- What no call changes. -/
def surroundings (w : Collaborators) : Surroundings where
  cache := w.cache
  limits := w.limits
  clock := w.clock
  gate := w.gate
  latches := w.latches
  keys := w.keys
  submissions := w.submissions
  abilities := w.hints.map fun h => (h.capabilities, h.flushFault)

/-- The fault by which the flush notification of a hint breaks off. -/
def flushFault? (w : Collaborators) (id : HintId) : Option Fault :=
  w.hints[id]?.bind Hint.flushFault

section Surroundings

variable {w w' : Collaborators} (h : w'.surroundings = w.surroundings)
include h

theorem cache_congr : w'.cache = w.cache := congrArg Surroundings.cache h

theorem limits_congr : w'.limits = w.limits := congrArg Surroundings.limits h

theorem clock_congr : w'.clock = w.clock := congrArg Surroundings.clock h

theorem gate_congr : w'.gate = w.gate := congrArg Surroundings.gate h

theorem latches_congr : w'.latches = w.latches := congrArg Surroundings.latches h

theorem submissions_congr : w'.submissions = w.submissions := congrArg Surroundings.submissions h

theorem abilities_congr (id : HintId) :
    (w'.hints[id]?.map fun h => (h.capabilities, h.flushFault)) =
      w.hints[id]?.map fun h => (h.capabilities, h.flushFault) := by
  have ha := congrArg (·[id]?) (congrArg Surroundings.abilities h)
  simpa only [surroundings, List.getElem?_map] using ha

theorem capabilities_congr (hint : Option HintId) : w'.capabilities hint = w.capabilities hint := by
  cases hint with
  | none => rfl
  | some id =>
    have ha := abilities_congr h id
    cases h' : w'.hints[id]? <;> cases h₀ : w.hints[id]? <;>
      simp_all [capabilities]

theorem flushFault?_congr (id : HintId) : w'.flushFault? id = w.flushFault? id := by
  have ha := abilities_congr h id
  cases h' : w'.hints[id]? <;> cases h₀ : w.hints[id]? <;>
    simp_all [flushFault?]

end Surroundings

theorem surroundings_set_hint {w : Collaborators} {id : HintId} {old new : Hint}
    (ho : w.hints[id]? = some old) (hc : new.capabilities = old.capabilities)
    (hf : new.flushFault = old.flushFault) (journal : Journal) :
    { w with hints := w.hints.set id new, journal }.surroundings = w.surroundings := by
  have ha : (w.hints.set id new).map (fun h => (h.capabilities, h.flushFault)) =
      w.hints.map fun h => (h.capabilities, h.flushFault) := by
    rw [List.map_set]
    refine List.ext_getElem? fun i => ?_
    by_cases hi : id = i
    · subst hi
      have hl : id < w.hints.length := (List.getElem?_eq_some_iff.1 ho).1
      rw [List.getElem?_set_self (by simpa using hl), List.getElem?_map, ho, hc, hf]
      rfl
    · rw [List.getElem?_set_ne hi]
  unfold surroundings
  simp only [ha]

/-! ## Growth -/

/-- The world went from `w` to `w'` by calls at the place `p` with the effects `u`. -/
structure Grows (p : Place) (u : List Event) (w w' : Collaborators) : Prop where
  journal : ∃ lines : Journal, w'.journal = w.journal ++ lines ∧ (∀ l ∈ lines, l.place = p) ∧
    (lines.filterMap fun l => l.event.effect?) = u
  files : w'.files = w.cache.replay w.files u
  connection : w'.connection = w.connection.after u
  surroundings : w'.surroundings = w.surroundings

variable {p : Place} {u v : List Event} {w w' w'' : Collaborators}

theorem Grows.refl (p : Place) (w : Collaborators) : Grows p [] w w where
  journal := ⟨[], by simp⟩
  files := rfl
  connection := rfl
  surroundings := rfl

theorem Grows.trans (g : Grows p u w w') (g' : Grows p v w' w'') : Grows p (u ++ v) w w'' where
  journal := by
    obtain ⟨lines, hj, hp, hu⟩ := g.journal
    obtain ⟨lines', hj', hp', hv⟩ := g'.journal
    refine ⟨lines ++ lines', ?_, ?_, ?_⟩
    · rw [hj', hj, List.append_assoc]
    · intro l hl
      rcases List.mem_append.1 hl with hl | hl
      · exact hp l hl
      · exact hp' l hl
    · rw [List.filterMap_append, hu, hv]
  files := by rw [g'.files, g.files, cache_congr g.surroundings, Cache.replay_append]
  connection := by rw [g'.connection, g.connection, Connection.after_append]
  surroundings := g'.surroundings.trans g.surroundings

theorem Grows.of_eq (g : Grows p u w w') (h : u = v) : Grows p v w w' := h ▸ g

theorem effects_of_grows {n : SubmissionId} (g : Grows p u w w') (hp : p.submission = some n) :
    w'.journal.effects n = w.journal.effects n ++ u := by
  obtain ⟨lines, hj, hl, hu⟩ := g.journal
  have hf : lines.filter (fun l => l.place.submission = some n) = lines :=
    List.filter_eq_self.2 fun l h => by simp [hl l h, hp]
  rw [hj, Journal.effects_append]
  show _ ++ List.filterMap _ (lines.filter _) = _
  rw [hf, hu]

theorem effects_of_grows_ne {n : SubmissionId} (g : Grows p u w w') (hp : p.submission ≠ some n) :
    w'.journal.effects n = w.journal.effects n := by
  obtain ⟨lines, hj, hl, hu⟩ := g.journal
  have hf : lines.filter (fun l => l.place.submission = some n) = [] :=
    List.filter_eq_nil_iff.2 fun l h => by simp [hl l h, hp]
  rw [hj, Journal.effects_append]
  show _ ++ List.filterMap _ (lines.filter _) = _
  rw [hf, List.filterMap_nil, List.append_nil]

/-! ## Log lines -/

theorem grows_logAll (p : Place) (notices : List Notice) (w : Collaborators) :
    Grows p [] w (w.logAll p notices) where
  journal := by
    refine ⟨notices.map fun n => ⟨p, .log n⟩, rfl, ?_, ?_⟩
    · intro l hl
      obtain ⟨n, -, rfl⟩ := List.mem_map.1 hl
      rfl
    · rw [List.filterMap_map]
      exact List.filterMap_eq_nil_iff.2 fun n _ => rfl
  files := rfl
  connection := rfl
  surroundings := rfl

theorem grows_log (p : Place) (notice : Notice) (w : Collaborators) :
    Grows p [] w (w.log p notice) :=
  grows_logAll p [notice] w

/-- Log lines after calls are no further effects. -/
theorem Grows.logAll (g : Grows p u w w') (notices : List Notice) :
    Grows p u w (w'.logAll p notices) :=
  (g.trans (grows_logAll p notices w')).of_eq (List.append_nil u)

theorem Grows.log (g : Grows p u w w') (notice : Notice) : Grows p u w (w'.log p notice) :=
  g.logAll [notice]

/-! ## Hints -/

/-- The effect of a retry signal. -/
def retrying (can : Capabilities) (hint : Option HintId) (value : Bool) : List Event :=
  match hint with
  | some id => if can.retry then [.setRetry id value] else []
  | none => []

/-- The effect of a report. -/
def reporting (can : Capabilities) (hint : Option HintId) (value : Bool) : List Event :=
  match hint with
  | some id => if can.result then [.setResult id value] else []
  | none => []

/-- The effect of a flush notification. -/
def notifying (can : Capabilities) (hint : Option HintId) : List Event :=
  match hint with
  | some id => if can.flush then [.markFlushed id] else []
  | none => []

theorem mem_retrying {can : Capabilities} {hint : Option HintId} {value : Bool} {e : Event}
    (he : e ∈ retrying can hint value) : ∃ id, hint = some id ∧ e = .setRetry id value := by
  unfold retrying at he
  split at he
  next id =>
    split at he
    · exact ⟨id, rfl, List.mem_singleton.1 he⟩
    · cases he
  · cases he

theorem mem_reporting {can : Capabilities} {hint : Option HintId} {value : Bool} {e : Event}
    (he : e ∈ reporting can hint value) : ∃ id, hint = some id ∧ e = .setResult id value := by
  unfold reporting at he
  split at he
  next id =>
    split at he
    · exact ⟨id, rfl, List.mem_singleton.1 he⟩
    · cases he
  · cases he

theorem mem_notifying {can : Capabilities} {hint : Option HintId} {e : Event}
    (he : e ∈ notifying can hint) : ∃ id, hint = some id ∧ e = .markFlushed id := by
  unfold notifying at he
  split at he
  next id =>
    split at he
    · exact ⟨id, rfl, List.mem_singleton.1 he⟩
    · cases he
  · cases he

theorem exists_hint {id : HintId} (f : Capabilities → Bool) (hn : f {} = false)
    (ha : f (w.capabilities (some id)) = true) :
    ∃ h, w.hints[id]? = some h ∧ w.capabilities (some id) = h.capabilities := by
  cases hh : w.hints[id]? with
  | none => simp [capabilities, hh, hn] at ha
  | some h => exact ⟨h, rfl, by simp [capabilities, hh]⟩

theorem flushFault_setRetry (h : Hint) (v : Bool) : (h.setRetry v).1.flushFault = h.flushFault := by
  unfold Hint.setRetry
  split <;> rfl

theorem flushFault_setResult (h : Hint) (v : Bool) :
    (h.setResult v).1.flushFault = h.flushFault := by
  unfold Hint.setResult
  split <;> rfl

theorem flushFault_markFlushed (h : Hint) : h.markFlushed.1.flushFault = h.flushFault := by
  unfold Hint.markFlushed
  split <;> rfl

theorem snd_markFlushed (h : Hint) : h.markFlushed.2 = h.flushFault := by
  unfold Hint.markFlushed
  split <;> rfl

/-- A hint is told something, and keeps its abilities. -/
theorem grows_hint {id : HintId} {old new : Hint} {event : Event} (p : Place)
    (ho : w.hints[id]? = some old) (hc : new.capabilities = old.capabilities)
    (hf : new.flushFault = old.flushFault)
    (he : event = .markFlushed id ∨ ∃ v, event = .setRetry id v ∨ event = .setResult id v) :
    Grows p [event] w { w.record p event with hints := w.hints.set id new } where
  journal := by
    refine ⟨[⟨p, event⟩], rfl, by simp, ?_⟩
    rcases he with rfl | ⟨v, rfl | rfl⟩ <;> rfl
  files := by rcases he with rfl | ⟨v, rfl | rfl⟩ <;> rfl
  connection := by rcases he with rfl | ⟨v, rfl | rfl⟩ <;> rfl
  surroundings := surroundings_set_hint ho hc hf _

theorem grows_signalRetry (p : Place) (hint : Option HintId) (value : Bool) (w : Collaborators) :
    Grows p (retrying (w.capabilities hint) hint value) w (w.signalRetry p hint value) := by
  cases hint with
  | none => exact grows_log p _ w
  | some id =>
    by_cases hr : (w.capabilities (some id)).retry = true
    · obtain ⟨h, hh, -⟩ := exists_hint Capabilities.retry rfl hr
      have g := grows_hint p hh (Hint.capabilities_setRetry h value) (flushFault_setRetry h value)
        (.inr ⟨value, .inl rfl⟩)
      simp only [signalRetry, retrying, if_pos hr, setRetry, hh]
      exact g.logAll _
    · simp only [signalRetry, retrying, if_neg hr]
      exact grows_log p _ w

theorem grows_signalResult (p : Place) (hint : Option HintId) (value : Bool) (w : Collaborators) :
    Grows p (reporting (w.capabilities hint) hint value) w (w.signalResult p hint value) := by
  cases hint with
  | none => exact .refl p w
  | some id =>
    by_cases hr : (w.capabilities (some id)).result = true
    · obtain ⟨h, hh, -⟩ := exists_hint Capabilities.result rfl hr
      have g := grows_hint p hh (Hint.capabilities_setResult h value) (flushFault_setResult h value)
        (.inr ⟨value, .inr rfl⟩)
      simp only [signalResult, reporting, if_pos hr, setResult, hh]
      exact g.logAll _
    · simp only [signalResult, reporting, if_neg hr]
      exact .refl p w

theorem grows_signalFailure (p : Place) (hint : Option HintId) (retry : Bool) (w : Collaborators) :
    Grows p (reporting (w.capabilities hint) hint false ++ retrying (w.capabilities hint) hint retry)
      w (w.signalFailure p hint retry) := by
  have g := grows_signalResult p hint false w
  have g' := grows_signalRetry p hint retry (w.signalResult p hint false)
  rw [capabilities_congr g.surroundings] at g'
  exact g.trans g'

theorem grows_markFlushed {id : HintId} (p : Place)
    (hf : (w.capabilities (some id)).flush = true) :
    Grows p [.markFlushed id] w (w.markFlushed p id).2 := by
  obtain ⟨h, hh, -⟩ := exists_hint Capabilities.flush rfl hf
  simp only [markFlushed, hh]
  exact grows_hint p hh (Hint.capabilities_markFlushed h) (flushFault_markFlushed h) (.inl rfl)

theorem fst_markFlushed (p : Place) (id : HintId) (w : Collaborators) :
    (w.markFlushed p id).1 = w.flushFault? id := by
  unfold markFlushed flushFault?
  cases hh : w.hints[id]? with
  | none => rfl
  | some h => exact snd_markFlushed h

/-! ## The cache, the gate and the connection -/

theorem grows_store (p : Place) (e : Envelope) (hinted : Bool) (w : Collaborators) :
    Grows p [.store e hinted] w (w.store p e hinted).2 := by
  have g : Grows p [.store e hinted] w { w.record p (.store e hinted) with
      files := (w.cache.store w.files e).files } :=
    ⟨⟨[_], rfl, by simp, rfl⟩, rfl, rfl, rfl⟩
  exact g.logAll _

theorem fst_store (p : Place) (e : Envelope) (hinted : Bool) (w : Collaborators) :
    (w.store p e hinted).1 = w.cache.storeFault? e :=
  Cache.fault_store w.cache w.files e

theorem grows_discard (p : Place) (e : Envelope) (w : Collaborators) :
    Grows p [.discard e] w (w.discard p e).2 := by
  have g : Grows p [.discard e] w { w.record p (.discard e) with
      files := (w.cache.discard w.files e).files } :=
    ⟨⟨[_], rfl, by simp, rfl⟩, rfl, rfl, rfl⟩
  exact g.logAll _

theorem fst_discard (p : Place) (e : Envelope) (w : Collaborators) :
    (w.discard p e).1 = w.cache.discardFault? e :=
  Cache.fault_discard w.cache w.files e

theorem grows_askGate (p : Place) (w : Collaborators) :
    Grows p [.askGate w.gate.isConnected] w (w.askGate p).2 := by
  have g : Grows p [.askGate w.gate.isConnected] w (w.record p (.askGate w.gate.isConnected)) :=
    ⟨⟨[_], rfl, by simp, rfl⟩, rfl, rfl, rfl⟩
  unfold askGate
  cases w.gate.fault? <;> exact g

theorem fst_askGate (p : Place) (w : Collaborators) :
    (w.askGate p).1 = w.gate.answer := by
  unfold askGate Gate.answer
  cases w.gate.fault? <;> rfl

theorem grows_send (p : Place) (e : Envelope) (w : Collaborators) :
    Grows p [.send e] w (w.send p e).2 :=
  ⟨⟨[_], rfl, by simp, rfl⟩, rfl, rfl, rfl⟩

/-! ## The limits -/

theorem fst_filter (p : Place) (e : Envelope) (hint : Option HintId) (w : Collaborators) :
    (w.filter p e hint).1 = (w.limits.filter w.clock e).1 := by
  unfold filter
  rcases w.limits.filter w.clock e with ⟨_ | left, notices⟩ <;> rfl

/-- A submission of which the limits leave nothing has failed for good. -/
theorem grows_filter (p : Place) (e : Envelope) (hint : Option HintId) (w : Collaborators) :
    Grows p (if (w.limits.filter w.clock e).1 = none then
      reporting (w.capabilities hint) hint false ++ retrying (w.capabilities hint) hint false
      else []) w (w.filter p e hint).2 := by
  unfold filter
  rcases w.limits.filter w.clock e with ⟨_ | left, notices⟩
  · have g := grows_logAll p notices w
    have g' := grows_signalFailure p hint false (w.logAll p notices)
    rw [capabilities_congr g.surroundings] at g'
    exact g.trans g'
  · exact grows_logAll p notices w

end Collaborators
end Courier
