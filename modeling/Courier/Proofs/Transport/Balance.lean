import Courier.Proofs.Transport.Actions

/-!
# The ledger and the journal

`Scene.Balanced` is the invariant of runs: the ledger agrees with the queue on where tasks are, and
with the journal on what was done for every submission. Every move is an `Advance`, which says what
one move can do to the ledger and to the world, and keeps the invariant (`Scene.Balanced.move`).
It holds when a transport starts over an unused world (`balanced_start`), and so in every run from
there (`Scene.Balanced.run`).
-/

namespace Courier.Transport

open Collaborators

variable {s s' : Scene} {w w' w'' : Collaborators} {ledger : Ledger} {t : Task}

/-! ## What one move does -/

/-- Nothing happened for any submission. -/
structure Quiet (w w' : Collaborators) : Prop where
  effects : ∀ n, w'.journal.effects n = w.journal.effects n
  submissions : w'.submissions = w.submissions
  capabilities : ∀ hint, w'.capabilities hint = w.capabilities hint
  files : w'.files = w.files
  disk : ∀ c, w.cache = .disk c → w'.cache = .disk c

theorem Quiet.refl (w : Collaborators) : Quiet w w :=
  ⟨fun _ => rfl, rfl, fun _ => rfl, rfl, fun _ h => h⟩

theorem Quiet.of_eq (hj : w'.journal = w.journal) (hn : w'.submissions = w.submissions)
    (hh : w'.hints = w.hints) (hf : w'.files = w.files) (hc : w'.cache = w.cache) : Quiet w w' where
  effects n := by rw [hj]
  submissions := hn
  capabilities hint := by unfold Collaborators.capabilities; rw [hh]
  files := hf
  disk c h := hc.trans h

theorem Quiet.trans (h : Quiet w w') (h' : Quiet w' w'') : Quiet w w'' where
  effects n := (h'.effects n).trans (h.effects n)
  submissions := h'.submissions.trans h.submissions
  capabilities hint := (h'.capabilities hint).trans (h.capabilities hint)
  files := h'.files.trans h.files
  disk c hc := h'.disk c (h.disk c hc)

theorem Quiet.of_grows {p : Place} (g : Grows p [] w w') : Quiet w w' where
  effects n := by
    by_cases hp : p.submission = some n
    · rw [effects_of_grows g hp, List.append_nil]
    · exact effects_of_grows_ne g hp
  submissions := submissions_congr g.surroundings
  capabilities := capabilities_congr g.surroundings
  files := g.files
  disk c hc := (cache_congr g.surroundings).trans hc

theorem Quiet.log (p : Place) (notice : Notice) (w : Collaborators) : Quiet w (w.log p notice) :=
  .of_grows (grows_log p notice w)

theorem Quiet.sleep (nanos : Nat) (w : Collaborators) : Quiet w (w.sleep nanos) :=
  .of_eq rfl rfl rfl rfl rfl

theorem Change.quiet (c : Change) (w : Collaborators) : Quiet w (c.apply w) := by
  cases c with
  | setGate connected =>
    have h : Quiet w { w with gate := (w.gate.set connected).1 } := .of_eq rfl rfl rfl rfl rfl
    exact h.trans (.of_grows (grows_logAll _ _ _))
  | changeLimits change =>
    have h : Quiet w { w with limits := (w.limits.change w.clock change).1 } :=
      .of_eq rfl rfl rfl rfl rfl
    have h' := h.trans (.of_grows (grows_logAll ⟨.caller, none⟩ (w.limits.change w.clock change).2 _))
    exact h'.trans (.of_eq rfl rfl rfl rfl rfl)
  | breakCache storeFault discardFault =>
    cases hc : w.cache with
    | recording _ _ =>
      simp only [apply, hc]
      exact ⟨fun _ => rfl, rfl, fun _ => rfl, rfl, fun c h => by rw [hc] at h; cases h⟩
    | none =>
      simp only [apply, hc]
      exact .refl w
    | disk cache =>
      simp only [apply, hc]
      exact .refl w
  | breakHint hint fault =>
    refine ⟨fun _ => rfl, rfl, fun id => ?_, rfl, fun _ h => h⟩
    cases id with
    | none => rfl
    | some id =>
      simp only [apply, Collaborators.capabilities, Option.bind_some]
      by_cases hi : hint = id
      · subst hi
        rw [List.getElem?_modify_eq]
        cases w.hints[hint]? <;> rfl
      · rw [List.getElem?_modify_ne _ _ hi]
  | replaceGate gate => exact .of_eq rfl rfl rfl rfl rfl
  | pushReply reply => exact .of_eq rfl rfl rfl rfl rfl
  | openLatch latch => exact .of_eq rfl rfl rfl rfl rfl
  | sleep nanos => exact .of_eq rfl rfl rfl rfl rfl

/-- What one move does to the ledger and to the world. -/
inductive Advance (s s' : Scene) : Prop where
  | quiet (ledger : s'.ledger = s.ledger) (world : Quiet s.world s'.world)
  | entered (r : Record) (ledger : s'.ledger = s.ledger ++ [r])
      (comes : r.From s r.envelope r.hint) (enters : Enters s r s'.transport)
      (grows : Grows (nextPlace s.world) (r.effects s.world.submissions) (numbered s.world) s'.world)
  | went (t : Task) (before after : Stage) (u : List Event) (has : s.ledger.Has t before)
      (ledger : s'.ledger = s.ledger.enter t after)
      (grows : Grows (t.place .worker) u s.world s'.world)
      (effects : after.effects t (s.world.capabilities t.hint) =
        before.effects t (s.world.capabilities t.hint) ++ u)
      (cause : ∀ fault, after = .cancelled (some fault) →
        (s.world.capabilities t.hint).cached = false ∧
          s.world.cache.storeFault? t.envelope = some fault)

theorem Advance.capabilities (ha : Advance s s') (hint : Option HintId) :
    s'.world.capabilities hint = s.world.capabilities hint := by
  cases ha with
  | quiet _ world => exact world.capabilities hint
  | entered _ _ _ _ grows => exact capabilities_congr grows.surroundings hint
  | went _ _ _ _ _ _ grows => exact capabilities_congr grows.surroundings hint

theorem Advance.disk (ha : Advance s s') {c : DiskCache} (h : s.world.cache = .disk c) :
    s'.world.cache = .disk c := by
  cases ha with
  | quiet _ world => exact world.disk c h
  | entered _ _ _ _ grows => exact (cache_congr grows.surroundings).trans h
  | went _ _ _ _ _ _ grows => exact (cache_congr grows.surroundings).trans h

/-- A record stays about what it was made for. -/
theorem Advance.comes (ha : Advance s s') {s₀ : Scene} {n : SubmissionId} {r : Record} {e : Envelope}
    {hint : Option HintId} (hr : s.ledger[n]? = some r) (h : r.From s₀ e hint) :
    ∃ r', s'.ledger[n]? = some r' ∧ r'.From s₀ e hint := by
  cases ha with
  | quiet ledger _ => exact ⟨r, by rw [ledger]; exact hr, h⟩
  | entered _ ledger =>
    refine ⟨r, ?_, h⟩
    rw [ledger, List.getElem?_append_left (List.getElem?_eq_some_iff.1 hr).1]
    exact hr
  | went t before after _ has ledger =>
    by_cases hn : t.submission = some n
    · refine ⟨{ r with fate := .passed t.envelope after }, ?_, h.submitted, h.can, ?_⟩
      · rw [ledger]
        exact Ledger.getElem?_enter_self hn hr after
      obtain ⟨m, r₀, hm, hf, ht⟩ := has
      rw [ht] at hn
      cases hn
      rw [hr] at hm
      cases hm
      rw [← h.left]
      unfold Record.left?
      rw [hf]
    · refine ⟨r, ?_, h⟩
      rw [ledger, Ledger.getElem?_enter_ne hn]
      exact hr

/-- An action of the worker is about the task that it has at hand, or about none. -/
theorem Placed.advance {q' : Queue Task Reply} (hp : Placed s.transport.queue s.ledger)
    (ha : Works s q' w') : Advance s ⟨{ s.transport with queue := q' }, w', s.noted⟩ := by
  cases ha with
  | rests unstarted last noted => exact .quiet noted (.refl _)
  | drops t takes noted =>
    exact .went t .waiting .dropping [] (hp.has_received takes.received) noted (.refl _ _) rfl
      fun fault h => by cases h
  | starts t takes kept noted =>
    exact .went t .waiting _ _ (hp.has_received takes.received) noted
      (t.start_spec .worker s.world).grows rfl fun fault h => by cases h
  | resumes t reply tends hand noted =>
    refine .went t (.started (.held reply)) _ _ (hp.has_atHand hand) noted
      (t.resume_spec .worker reply s.world).grows ?_ fun fault h => by cases h
    exact t.effects_arrived _ s.world reply _
  | returns t fault tends returned noted =>
    refine .quiet noted ?_
    cases fault with
    | none => exact .refl _
    | some fault => exact .log _ _ _
  | disposes t tends hand noted =>
    exact .went t .dropping _ _ (hp.has_atHand hand) noted
      (grows_reject .worker t .cancelled s.world) rfl
      fun fault h => cause_of_reject (Stage.cancelled.inj h)

/-! ## The ledger and the world -/

/-- The ledger and the world agree on what was done for every submission. -/
structure Booked (w : Collaborators) (ledger : Ledger) : Prop where
  length : ledger.length = w.submissions
  fresh : ∀ n, w.submissions ≤ n → w.journal.effects n = []
  abilities : ∀ (n : SubmissionId) (r : Record), ledger[n]? = some r → r.can = w.capabilities r.hint
  effects : ∀ (n : SubmissionId) (r : Record), ledger[n]? = some r → w.journal.effects n = r.effects n

/-- What the ledger says after a task came to another stage. -/
theorem Ledger.Has.getElem?_enter {before : Stage} (h : ledger.Has t before) (after : Stage)
    {n : SubmissionId} {r : Record} (hr : (ledger.enter t after)[n]? = some r) :
    (t.submission = some n ∧ ∃ r₀, ledger[n]? = some r₀ ∧
      r = { r₀ with fate := .passed t.envelope after } ∧ r₀.fate = .passed t.envelope before ∧
        t = r₀.task n t.envelope) ∨
      t.submission ≠ some n ∧ ledger[n]? = some r := by
  obtain ⟨m, r₀, hm, hf, ht⟩ := h
  have hs : t.submission = some m := by rw [ht]; rfl
  by_cases hn : t.submission = some n
  · rw [hs] at hn
    cases hn
    rw [getElem?_enter_self hs hm] at hr
    cases hr
    exact .inl ⟨hs, r₀, hm, rfl, hf, ht⟩
  · rw [getElem?_enter_ne hn] at hr
    exact .inr ⟨hn, hr⟩

namespace Booked

theorem unused (h : Unused w) : Booked w [] where
  length := h.submissions.symm
  fresh n _ := by
    have hf : w.journal.filter (fun l => l.place.submission = some n) = [] :=
      List.filter_eq_nil_iff.2 fun l hl => by simp [h.journal l hl]
    show List.filterMap _ (w.journal.filter _) = _
    rw [hf, List.filterMap_nil]
  abilities n r hr := by cases hr
  effects n r hr := by cases hr

theorem quiet (hb : Booked w ledger) (hq : Quiet w w') : Booked w' ledger where
  length := hb.length.trans hq.submissions.symm
  fresh n hn := by rw [hq.effects]; exact hb.fresh n (by rw [← hq.submissions]; exact hn)
  abilities n r hr := (hb.abilities n r hr).trans (hq.capabilities r.hint).symm
  effects n r hr := (hq.effects n).trans (hb.effects n r hr)

theorem entered (hb : Booked w ledger) {r : Record} (can : r.can = w.capabilities r.hint)
    (grows : Grows (nextPlace w) (r.effects w.submissions) (numbered w) w') :
    Booked w' (ledger ++ [r]) := by
  have hn : w'.submissions = w.submissions + 1 := submissions_congr grows.surroundings
  have hc (hint : Option HintId) : w'.capabilities hint = w.capabilities hint :=
    capabilities_congr grows.surroundings hint
  have other {n} (hne : n ≠ w.submissions) :
      w'.journal.effects n = (numbered w).journal.effects n :=
    effects_of_grows_ne grows fun h => hne (Option.some.inj h).symm
  refine ⟨?_, ?_, ?_, ?_⟩
  · rw [List.length_append, hb.length, hn]
    rfl
  · intro n hle
    rw [other (by omega)]
    exact hb.fresh n (by omega)
  · intro n r' hr'
    rw [hc]
    rcases Ledger.getElem?_append_singleton hr' with hr' | ⟨-, rfl⟩
    · exact hb.abilities n r' hr'
    · exact can
  · intro n r' hr'
    rcases Ledger.getElem?_append_singleton hr' with hr' | ⟨hn', rfl⟩
    · have hlt := (List.getElem?_eq_some_iff.1 hr').1
      rw [hb.length] at hlt
      rw [other (by omega)]
      exact hb.effects n r' hr'
    · rw [hb.length] at hn'
      subst hn'
      rw [effects_of_grows grows rfl]
      show w.journal.effects _ ++ _ = _
      rw [hb.fresh _ (Nat.le_refl _), List.nil_append]

theorem went (hb : Booked w ledger) {before after : Stage} {u : List Event}
    (has : ledger.Has t before) (grows : Grows (t.place .worker) u w w')
    (effects : after.effects t (w.capabilities t.hint) =
      before.effects t (w.capabilities t.hint) ++ u) :
    Booked w' (ledger.enter t after) := by
  have hn : w'.submissions = w.submissions := submissions_congr grows.surroundings
  have hc (hint : Option HintId) : w'.capabilities hint = w.capabilities hint :=
    capabilities_congr grows.surroundings hint
  refine ⟨?_, ?_, ?_, ?_⟩
  · rw [hn, ← hb.length, Ledger.length_enter]
  · intro n hle
    have hne : (t.place .worker).submission ≠ some n := fun h => by
      obtain ⟨m, hm, hlt⟩ := has.submission
      have : t.submission = some n := h
      rw [hm] at this
      cases this
      rw [hb.length, ← hn] at hlt
      exact Nat.lt_irrefl n (Nat.lt_of_lt_of_le hlt hle)
    rw [effects_of_grows_ne grows hne]
    exact hb.fresh n (by rw [← hn]; exact hle)
  · intro n r hr
    rw [hc]
    rcases has.getElem?_enter after hr with ⟨-, r₀, hr₀, rfl, -⟩ | ⟨-, hr⟩
    · exact hb.abilities n r₀ hr₀
    · exact hb.abilities n r hr
  · intro n r hr
    rcases has.getElem?_enter after hr with ⟨hs, r₀, hr₀, rfl, hf, ht⟩ | ⟨hs, hr⟩
    · have hcan := hb.abilities n r₀ hr₀
      have hh : r₀.hint = t.hint := by rw [ht]; rfl
      have now : Record.effects { r₀ with fate := .passed t.envelope after } n =
          after.effects t r₀.can := Record.effects_of_fate rfl ht
      rw [effects_of_grows grows hs, hb.effects n r₀ hr₀, Record.effects_of_fate hf ht, now, hcan, hh]
      exact effects.symm
    · rw [effects_of_grows_ne grows hs]
      exact hb.effects n r hr

theorem advance (hb : Booked s.world s.ledger) (ha : Advance s s') : Booked s'.world s'.ledger := by
  cases ha with
  | quiet ledger world =>
    rw [ledger]
    exact hb.quiet world
  | entered r ledger comes enters grows =>
    rw [ledger]
    exact hb.entered comes.can grows
  | went t before after u has ledger grows effects cause =>
    rw [ledger]
    exact hb.went has grows effects

end Booked

/-! ## The invariant of runs -/

/-- The ledger agrees with the queue and with the world. -/
structure Scene.Balanced (s : Scene) : Prop where
  placed : Placed s.transport.queue s.ledger
  booked : Booked s.world s.ledger
  closed : s.transport.closed = ! s.transport.queue.accepting

theorem quiet_shutDown (q : Queue Task Reply) (w : Collaborators) :
    Quiet w (q.shutDown handler w).2 := by
  unfold Queue.shutDown
  split
  · exact .log _ _ _
  · exact .refl w

theorem Placed.of_worker {q q' : Queue Task Reply} (hp : Placed q ledger) (hs : q'.Sound)
    (hw : q'.worker = q.worker) (hq : q'.waiting = q.waiting) : Placed q' ledger :=
  hp.of_same hs (by rw [Queue.unstarted, Queue.unstarted, hw, hq]) (by rw [hw]) (fun _ _ h => by rw [← hw]; exact h)
    fun _ => by rw [hw]

namespace Scene

/-- A move from `s` to `s'` is an advance, and afterwards tasks are where the ledger says. -/
structure Passes (s s' : Scene) : Prop where
  advance : Advance s s'
  placed : Placed s'.transport.queue s'.ledger
  closed : s'.transport.closed = ! s'.transport.queue.accepting

theorem Balanced.quiet (hb : s.Balanced) (hq : Quiet s.world w') : Passes s { s with world := w' } :=
  ⟨.quiet rfl hq, hb.placed, hb.closed⟩

theorem Balanced.send (hb : s.Balanced) (e : Envelope) (hint : Option HintId) :
    Passes s (s.send e hint) := by
  obtain ⟨he, hg⟩ := s.send_spec e hint
  refine ⟨.entered (s.entry e hint) (s.ledger_send e hint) (s.entry_from e hint) he hg,
    hb.placed.entered hb.booked.length he, ?_⟩
  rw [he.closed.1, he.closed.2, hb.closed]

theorem quiet_endFlush (t : Transport) (timeoutMs : Nat) (w : Collaborators) :
    Quiet w (t.endFlush timeoutMs w).2 := by
  unfold endFlush
  split
  · exact .refl w
  · exact (Quiet.sleep _ _).trans (.log _ _ _)

theorem Balanced.beginClose (hb : s.Balanced) :
    Passes s { s with
      transport := (s.transport.beginClose s.world).1
      world := (s.transport.beginClose s.world).2 } := by
  unfold Transport.beginClose
  refine ⟨.quiet rfl ((Quiet.log _ _ _).trans (quiet_shutDown _ _)),
    hb.placed.of_worker hb.placed.sound.shutDown ?_ ?_, ?_⟩
  · rw [Queue.worker_shutDown]
  · rw [Queue.waiting_shutDown]
  · rw [Queue.accepting_shutDown]
    rfl

theorem Balanced.endClose (hb : s.Balanced) (hclosed : s.transport.closed = true) :
    Passes s { s with
      transport := (s.transport.endClose s.world).1
      world := (s.transport.endClose s.world).2 } := by
  unfold Transport.endClose
  by_cases ht : s.transport.queue.isTerminated = true
  · simp only [if_pos ht]
    exact ⟨.quiet rfl (.log _ _ _), hb.placed, hb.closed⟩
  · simp only [if_neg ht]
    refine ⟨.quiet rfl (((Quiet.sleep _ _).trans (.log _ _ _)).trans (quiet_shutDown _ _)),
      hb.placed.of_worker hb.placed.sound.shutDownNow ?_ ?_, ?_⟩
    · rw [Queue.worker_shutDownNow]
    · rw [Queue.waiting_shutDownNow]
    · rw [Queue.shutDownNow, Queue.accepting_shutDown]
      exact hclosed

theorem Balanced.work (hb : s.Balanced) : Passes s s.work := by
  cases hst : s.transport.queue.step handler s.world with
  | none =>
    rw [work_of_step_eq_none hst]
    exact ⟨.quiet rfl (.refl _), hb.placed, hb.closed⟩
  | some r =>
    obtain ⟨q', w'⟩ := r
    have ha := Queue.acts_of_step hst
    rw [work_of_step hst]
    refine ⟨hb.placed.advance (works_of_acts ha), hb.placed.acts ha, ?_⟩
    rw [ha.accepting_eq, hb.closed]

theorem Balanced.passes (hb : s.Balanced) (m : Move) : Passes s (s.move m) := by
  cases m with
  | send e hint => exact hb.send e hint
  | beginFlush timeoutMs => exact hb.quiet (.log _ _ _)
  | endFlush timeoutMs => exact hb.quiet (quiet_endFlush _ _ _)
  | beginClose =>
    show Passes s (if s.transport.closed then s else _)
    split
    · exact hb.quiet (.refl _)
    · exact hb.beginClose
  | endClose =>
    show Passes s (if s.transport.closed then _ else s)
    split
    next hclosed => exact hb.endClose hclosed
    · exact hb.quiet (.refl _)
  | work => exact hb.work
  | change c => exact hb.quiet (c.quiet s.world)

theorem Balanced.move (hb : s.Balanced) (m : Move) : (s.move m).Balanced :=
  have h := hb.passes m
  ⟨h.placed, hb.booked.advance h.advance, h.closed⟩

theorem Balanced.run (hb : s.Balanced) (moves : List Move) : (run moves s).Balanced :=
  run_induction (fun _ m h => h.move m) hb moves

/-- A run from an empty ledger leaves a record of everything that was submitted. -/
theorem Balanced.recorded (hb : s.Balanced) (hl : s.ledger = []) (moves : List Move) :
    Recorded moves s := by
  rintro before e hint after rfl
  have hlength : (Scene.run before s).ledger.length = (before.flatMap Move.sends).length := by
    have h := congrArg List.length (submitted_run before s)
    rwa [submitted, submitted, hl, List.length_map, List.map_nil, List.nil_append] at h
  have hb₀ := hb.run before
  generalize hs₀ : Scene.run before s = s₀ at *
  have entered : (s₀.move (.send e hint)).ledger[(before.flatMap Move.sends).length]? =
      some (s₀.entry e hint) := by
    rw [← hlength]
    exact List.getElem?_concat_length
  rw [run_append, hs₀]
  -- the record is there after the submission, and every move after it keeps it
  refine (run_induction (P := fun s => s.Balanced ∧
    ∃ r, s.ledger[(before.flatMap Move.sends).length]? = some r ∧ r.From s₀ e hint) ?_
    ⟨hb₀.move (.send e hint), _, entered, s₀.entry_from e hint⟩ after).2
  rintro s₁ m ⟨hb₁, r, hr, hfrom⟩
  exact ⟨hb₁.move m, (hb₁.passes m).advance.comes hr hfrom⟩

end Scene

/-- A transport that was started over an unused world agrees with the empty ledger. -/
theorem balanced_start {settings : TransportSettings} {limited : Bool} {t : Transport}
    (hu : Unused w) (hs : start settings limited w = (.ok t, w')) :
    Scene.Balanced ⟨t, w', []⟩ := by
  unfold start at hs
  split at hs
  · cases hs
  · cases hs
    exact ⟨.create _, (Booked.unused hu).quiet (.log _ _ _), rfl⟩

end Courier.Transport
