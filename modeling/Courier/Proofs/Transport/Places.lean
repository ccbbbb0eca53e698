import Courier.Proofs.Transport.Moves

/-!
# Where the ledger says that tasks are

`Placed q ledger` says that the ledger and the queue agree: the tasks that wait are in the queue in
the order of their submissions, the one at hand is with the worker, and the worker is broken exactly
when disposing of a cancelled task broke off. Every action of the worker keeps this
(`Placed.acts`), and so does every submission (`Placed.entered`).
-/

namespace Courier.Transport

variable {ledger : Ledger} {t u : Task} {stage stage' : Stage} {q q' : Queue Task Reply}

/-! ## Tasks in the ledger -/

namespace Ledger

theorem getElem?_enter_self {n : SubmissionId} {r : Record} (hs : t.submission = some n)
    (hr : ledger[n]? = some r) (after : Stage) :
    (ledger.enter t after)[n]? = some { r with fate := .passed t.envelope after } := by
  unfold enter
  simp only [hs, List.getElem?_modify_eq, hr]
  rfl

theorem getElem?_enter_ne {n : SubmissionId} (hs : t.submission ≠ some n) (after : Stage) :
    (ledger.enter t after)[n]? = ledger[n]? := by
  unfold enter
  split
  next m hm =>
    have hne : m ≠ n := fun h => hs (by rw [hm, h])
    rw [List.getElem?_modify_ne _ _ hne]
  · rfl

theorem length_enter (ledger : Ledger) (t : Task) (stage : Stage) :
    (ledger.enter t stage).length = ledger.length := by
  unfold enter
  split
  · exact List.length_modify _ _ _
  · rfl

namespace Has

theorem submission (h : ledger.Has t stage) :
    ∃ n, t.submission = some n ∧ n < ledger.length := by
  obtain ⟨n, r, hr, -, ht⟩ := h
  refine ⟨n, ?_, (List.getElem?_eq_some_iff.1 hr).1⟩
  rw [ht]
  rfl

theorem exists_record (h : ledger.Has t stage) {n : SubmissionId} (hn : t.submission = some n) :
    ∃ r, ledger[n]? = some r ∧ r.fate = .passed t.envelope stage ∧ t = r.task n t.envelope := by
  obtain ⟨m, r, hr, hf, ht⟩ := h
  obtain rfl : m = n := by
    rw [ht] at hn
    exact Option.some.inj hn
  exact ⟨r, hr, hf, ht⟩

/-- A submission is one task at one stage. -/
theorem inj (h : ledger.Has t stage) (h' : ledger.Has u stage')
    (hs : t.submission = u.submission) : t = u ∧ stage = stage' := by
  obtain ⟨n, r, hr, hf, ht⟩ := h
  obtain ⟨m, r', hr', hf', hu⟩ := h'
  have hn : n = m := by
    rw [ht, hu] at hs
    exact Option.some.inj hs
  subst hn
  rw [hr] at hr'
  cases hr'
  rw [hf] at hf'
  injection hf' with he hst
  rw [← he] at hu
  exact ⟨ht.trans hu.symm, hst⟩

/-- Another stage is another stage of this task alone. -/
theorem enter_iff (h : ledger.Has t stage) (u : Task) (after now : Stage) :
    (ledger.enter t after).Has u now ↔
      u = t ∧ now = after ∨ u.submission ≠ t.submission ∧ ledger.Has u now := by
  obtain ⟨n, r, hr, hf, ht⟩ := h
  have hs : t.submission = some n := by rw [ht]; rfl
  constructor
  · rintro ⟨m, r', hr', hf', hu⟩
    have hm : u.submission = some m := by rw [hu]; rfl
    by_cases hnm : n = m
    · subst hnm
      rw [getElem?_enter_self hs hr] at hr'
      cases hr'
      injection hf' with he hst
      refine .inl ⟨?_, hst.symm⟩
      rw [hu, ht, ← he]
      rfl
    · have hne : t.submission ≠ some m := by rw [hs]; exact fun h => hnm (Option.some.inj h)
      rw [getElem?_enter_ne hne] at hr'
      exact .inr ⟨by rw [hm]; exact hne.symm, m, r', hr', hf', hu⟩
  · rintro (⟨rfl, rfl⟩ | ⟨hne, m, r', hr', hf', hu⟩)
    · exact ⟨n, _, getElem?_enter_self hs hr now, rfl, ht⟩
    · have hm : u.submission = some m := by rw [hu]; rfl
      rw [hm] at hne
      exact ⟨m, r', by rw [getElem?_enter_ne hne.symm]; exact hr', hf', hu⟩

end Has
end Ledger

theorem Ledger.not_has_nil (t : Task) (stage : Stage) : ¬ Ledger.Has [] t stage := by
  rintro ⟨n, r, hr, -⟩
  cases hr

theorem Ledger.getElem?_append_singleton {r r' : Record} {n : SubmissionId}
    (h : (ledger ++ [r])[n]? = some r') :
    ledger[n]? = some r' ∨ n = ledger.length ∧ r' = r := by
  rw [List.getElem?_append] at h
  split at h
  · exact .inl h
  next hn =>
    obtain ⟨hi, hr⟩ := List.getElem?_eq_some_iff.1 h
    have hl : n - ledger.length = 0 := Nat.lt_one_iff.1 hi
    simp only [hl, List.getElem_cons_zero] at hr
    exact .inr ⟨Nat.le_antisymm (Nat.sub_eq_zero_iff_le.1 hl) (Nat.le_of_not_lt hn), hr.symm⟩

theorem Ledger.has_append_iff (ledger : Ledger) (r : Record) (t : Task) (stage : Stage) :
    Ledger.Has (ledger ++ [r]) t stage ↔
      ledger.Has t stage ∨ r.fate = .passed t.envelope stage ∧ t = r.task ledger.length t.envelope := by
  constructor
  · rintro ⟨n, r', hr, hf, ht⟩
    rcases Ledger.getElem?_append_singleton hr with hr | ⟨rfl, rfl⟩
    · exact .inl ⟨n, r', hr, hf, ht⟩
    · exact .inr ⟨hf, ht⟩
  · rintro (⟨n, r', hr, hf, ht⟩ | ⟨hf, ht⟩)
    · have hn := (List.getElem?_eq_some_iff.1 hr).1
      exact ⟨n, r', by rw [List.getElem?_append_left hn]; exact hr, hf, ht⟩
    · exact ⟨ledger.length, r, List.getElem?_concat_length, hf, ht⟩

/-! ## The queue and the ledger -/

/-- The task that the worker has at hand, and its stage. -/
def atHand : Worker Task Reply → Option (Task × Stage)
  | .running t reply => some (t, .started (.held reply))
  | .dropping t => some (t, .dropping)
  | .ready | .received _ | .returned .. | .stopped | .broken _ => none

/-- Whether a task at this stage is at the worker's hand. -/
def Stage.isAtHand : Stage → Bool
  | .dropping | .started (.held _) => true
  | .rejected .. | .waiting | .cancelled _ | .started (.ended _) => false

/-- The ledger and the queue agree on where tasks are. -/
structure Placed (q : Queue Task Reply) (ledger : Ledger) : Prop where
  sound : q.Sound
  waiting : ∀ t, t ∈ q.unstarted ↔ ledger.Has t .waiting
  order : q.unstarted.Pairwise fun t u => t.submission < u.submission
  hand : ∀ t stage, stage.isAtHand = true → (atHand q.worker = some (t, stage) ↔ ledger.Has t stage)
  returned : ∀ t fault, q.worker = .returned t fault →
    ∃ ending, ledger.Has t (.started (.ended ending)) ∧ ending.fault? = fault
  broken : ∀ fault, q.worker = .broken fault ↔ ∃ t, ledger.Has t (.cancelled (some fault))

theorem isAtHand_of_atHand {worker : Worker Task Reply} (h : atHand worker = some (t, stage)) :
    stage.isAtHand = true := by
  cases worker <;> cases h <;> rfl

namespace Placed

theorem create (capacity : Nat) : Placed (Queue.create capacity) [] where
  sound := Queue.sound_create capacity
  waiting t := iff_of_false List.not_mem_nil (Ledger.not_has_nil t _)
  order := .nil
  hand t stage _ := iff_of_false (fun h => by cases h) (Ledger.not_has_nil t stage)
  returned _ _ h := by cases h
  broken _ := iff_of_false (fun h => by cases h) fun h => Ledger.not_has_nil _ _ h.choose_spec

theorem of_same (hp : Placed q ledger) (hs : q'.Sound) (hu : q'.unstarted = q.unstarted)
    (ha : atHand q'.worker = atHand q.worker)
    (hr : ∀ t fault, q'.worker = .returned t fault → q.worker = .returned t fault)
    (hb : ∀ fault, q'.worker = .broken fault ↔ q.worker = .broken fault) : Placed q' ledger where
  sound := hs
  waiting t := by rw [hu]; exact hp.waiting t
  order := by rw [hu]; exact hp.order
  hand t stage h := by rw [ha]; exact hp.hand t stage h
  returned t fault h := hp.returned t fault (hr t fault h)
  broken fault := (hb fault).trans (hp.broken fault)

theorem has_received (hp : Placed q ledger) (h : q.worker = .received t) :
    ledger.Has t .waiting :=
  (hp.waiting t).1 (by simp [Queue.unstarted, Queue.received, h])

theorem has_atHand (hp : Placed q ledger) (h : atHand q.worker = some (t, stage)) :
    ledger.Has t stage :=
  (hp.hand t stage (isAtHand_of_atHand h)).1 h

theorem submission_ne (hp : Placed q ledger) {rest : List Task} (hu : q.unstarted = t :: rest) :
    ∀ u ∈ rest, u.submission ≠ t.submission := by
  have ho := hp.order
  rw [hu, List.pairwise_cons] at ho
  intro u hu' he
  have hlt := ho.1 u hu'
  rw [he] at hlt
  obtain ⟨n, hn, -⟩ := ((hp.waiting t).1 (by rw [hu]; exact List.mem_cons_self)).submission
  rw [hn] at hlt
  exact Nat.lt_irrefl n hlt

/-- A worker whose run is over ran the task `t`, and it ended so. -/
def Returns (worker : Worker Task Reply) (t : Task) (stage : Stage) : Prop :=
  ∀ u fault, worker = .returned u fault →
    u = t ∧ ∃ ending, stage = .started (.ended ending) ∧ ending.fault? = fault

/-- The one task that is with the worker comes to another stage. -/
theorem goes (hp : Placed q ledger) {before after : Stage} (h : ledger.Has t before)
    (hs : q'.Sound)
    (hu : ∀ u, u ∈ q'.unstarted ↔ u ∈ q.unstarted ∧ u.submission ≠ t.submission)
    (ho : q'.unstarted.Sublist q.unstarted) (hafter : after ≠ .waiting)
    (hone : ∀ u stage, atHand q.worker = some (u, stage) → u = t)
    (ha : atHand q'.worker = if after.isAtHand then some (t, after) else none)
    (hwhole : ∀ fault, q.worker ≠ .broken fault) (hr : Returns q'.worker t after)
    (hb : ∀ fault, q'.worker = .broken fault ↔ after = .cancelled (some fault)) :
    Placed q' (ledger.enter t after) where
  sound := hs
  waiting u := by
    rw [hu, hp.waiting, h.enter_iff]
    constructor
    · rintro ⟨hw, hne⟩
      exact .inr ⟨hne, hw⟩
    · rintro (⟨-, hw⟩ | ⟨hne, hw⟩)
      · exact absurd hw.symm hafter
      · exact ⟨hw, hne⟩
  order := hp.order.sublist ho
  hand u stage hst := by
    rw [ha, h.enter_iff]
    constructor
    · intro hh
      split at hh
      · cases hh
        exact .inl ⟨rfl, rfl⟩
      · cases hh
    · rintro (⟨rfl, rfl⟩ | ⟨hne, hh⟩)
      · rw [if_pos hst]
      · -- whatever else is at hand would be this very task
        have hut := hone u stage ((hp.hand u stage hst).2 hh)
        exact absurd (congrArg Task.submission hut) hne
  returned u fault h' := by
    obtain ⟨rfl, ending, rfl, hf⟩ := hr u fault h'
    exact ⟨ending, (h.enter_iff u _ _).2 (.inl ⟨rfl, rfl⟩), hf⟩
  broken fault := by
    rw [hb]
    constructor
    · rintro rfl
      exact ⟨t, (h.enter_iff t _ _).2 (.inl ⟨rfl, rfl⟩)⟩
    · rintro ⟨u, hu⟩
      rcases (h.enter_iff u _ _).1 hu with ⟨-, hc⟩ | ⟨-, hc⟩
      · exact hc.symm
      · exact absurd ((hp.broken fault).2 ⟨u, hc⟩) (hwhole fault)

/-- The first task that waits comes to the worker's hand, or is over. -/
theorem leaves (hp : Placed q ledger) {rest : List Task} {after : Stage} (hs : q'.Sound)
    (hu : q.unstarted = t :: rest) (hu' : q'.unstarted = rest) (hafter : after ≠ .waiting)
    (hone : atHand q.worker = none) (hwhole : ∀ fault, q.worker ≠ .broken fault)
    (ha : atHand q'.worker = if after.isAtHand then some (t, after) else none)
    (hr : Returns q'.worker t after)
    (hb : ∀ fault, q'.worker = .broken fault ↔ after = .cancelled (some fault)) :
    Placed q' (ledger.enter t after) := by
  have hw := (hp.waiting t).1 (by rw [hu]; exact List.mem_cons_self)
  refine hp.goes hw hs ?_ ?_ hafter (by simp [hone]) ha hwhole hr hb
  · intro u
    rw [hu, hu', List.mem_cons]
    constructor
    · exact fun h => ⟨.inr h, hp.submission_ne hu u h⟩
    · rintro ⟨rfl | h, hne⟩
      · exact absurd rfl hne
      · exact h
  · rw [hu, hu']
    exact List.sublist_cons_self t rest

/-- The task at the worker's hand goes on, or is over. -/
theorem proceeds (hp : Placed q ledger) {before after : Stage} (hs : q'.Sound)
    (hone : atHand q.worker = some (t, before)) (hu : q'.unstarted = q.unstarted)
    (hafter : after ≠ .waiting)
    (ha : atHand q'.worker = if after.isAtHand then some (t, after) else none)
    (hr : Returns q'.worker t after)
    (hb : ∀ fault, q'.worker = .broken fault ↔ after = .cancelled (some fault)) :
    Placed q' (ledger.enter t after) := by
  have hat := isAtHand_of_atHand hone
  have hh := (hp.hand t before hat).1 hone
  refine hp.goes hh hs ?_ (hu ▸ .refl _) hafter ?_ ha ?_ hr hb
  · intro u
    rw [hu]
    refine ⟨fun h => ⟨h, fun he => ?_⟩, And.left⟩
    obtain ⟨-, hst⟩ := ((hp.waiting u).1 h).inj hh he
    rw [← hst] at hat
    cases hat
  · intro u stage h
    rw [hone] at h
    cases h
    rfl
  · intro fault h
    rw [h] at hone
    cases hone

theorem atHand_proceed (q : Queue Task Reply) (t : Task) (standing : Standing) :
    atHand (q.proceed t standing.progress).worker =
      if (Stage.started standing).isAtHand then some (t, .started standing) else none := by
  cases standing <;> rfl

theorem returns_proceed (q : Queue Task Reply) (t : Task) (standing : Standing) :
    Returns (q.proceed t standing.progress).worker t (.started standing) := by
  intro u fault h
  cases standing with
  | held reply => cases h
  | ended ending =>
    cases h
    exact ⟨rfl, ending, rfl, rfl⟩

theorem proceed_ne_broken (q : Queue Task Reply) (t : Task) (standing : Standing) (fault : Fault) :
    (q.proceed t standing.progress).worker = .broken fault ↔
      Stage.started standing = .cancelled (some fault) := by
  refine iff_of_false ?_ (by simp)
  cases standing <;> simp [Queue.proceed, Standing.progress]

/-! ## Moves -/

theorem acts {s : Scene} {w' : Collaborators} (hp : Placed s.transport.queue s.ledger)
    (ha : Queue.Acts handler s.transport.queue s.world q' w') : Placed q' s.noted := by
  have hs := hp.sound.acts ha
  cases ha with
  | receive t more ready waiting =>
    rw [Scene.noted_of_ready ready]
    refine hp.of_same hs ?_ (by rw [ready]; rfl) (fun _ _ h => by cases h) (by rw [ready]; simp)
    simp [Queue.unstarted, Queue.received, ready, waiting]
  | stop ready waiting closed =>
    rw [Scene.noted_of_ready ready]
    refine hp.of_same hs ?_ (by rw [ready]; rfl) (fun _ _ h => by cases h) (by rw [ready]; simp)
    simp [Queue.unstarted, Queue.received, ready, waiting]
  | drop t received cancelled =>
    rw [Scene.noted_of_received_of_cancelled received cancelled]
    refine hp.leaves hs ?_ rfl (by simp) (by rw [received]; rfl) (by simp [received]) rfl
      (fun _ _ h => by cases h) (by simp)
    simp [Queue.unstarted, Queue.received, received, Queue.release]
  | start t received kept =>
    rw [Scene.noted_of_received_of_kept received kept]
    have hc : (handler.start t s.world).1 = (t.started s.world).progress :=
      (t.start_spec .worker s.world).progress
    rw [hc] at hs ⊢
    refine hp.leaves hs ?_ (Queue.unstarted_proceed _ t _) (by simp) (by rw [received]; rfl)
      (by simp [received]) (atHand_proceed _ t _) (returns_proceed _ t _) (proceed_ne_broken _ t _)
    simp [Queue.unstarted, Queue.received, received]
  | resume t reply running free =>
    rw [Scene.noted_of_running running]
    have hc : (handler.resume t reply s.world).1 =
        (t.arrived s.world (reply.behind s.world.latches)).progress :=
      (t.resume_spec .worker reply s.world).progress
    rw [hc] at hs ⊢
    refine hp.proceeds hs (by rw [running]; rfl) ?_ (by simp) (atHand_proceed _ t _)
      (returns_proceed _ t _) (proceed_ne_broken _ t _)
    rw [Queue.unstarted_proceed]
    simp [Queue.unstarted, Queue.received, running]
  | finish t fault returned =>
    rw [Scene.noted_of_returned returned]
    refine hp.of_same hs ?_ (by rw [returned]; rfl) (fun _ _ h => by cases h)
      (by rw [returned]; simp)
    simp [Queue.unstarted, Queue.received, returned, Queue.release]
  | dispose t dropping whole =>
    have hf : (reject .worker t .cancelled s.world).1 = none := whole
    rw [Scene.noted_of_dropping dropping, hf]
    refine hp.proceeds hs (by rw [dropping]; rfl) ?_ (by simp) rfl (fun _ _ h => by cases h) (by simp)
    simp [Queue.unstarted, Queue.received, dropping]
  | breakOff t fault dropping broken =>
    have hf : (reject .worker t .cancelled s.world).1 = some fault := broken
    rw [Scene.noted_of_dropping dropping, hf]
    refine hp.proceeds hs (by rw [dropping]; rfl) ?_ (by simp) rfl (fun _ _ h => by cases h) ?_
    · simp [Queue.unstarted, Queue.received, dropping]
    · intro fault'
      constructor
      · rintro ⟨⟩
        rfl
      · rintro ⟨⟩
        rfl

/-- A submission that was not accepted is nowhere in the queue. -/
theorem elsewhere (hp : Placed q ledger) {r : Record}
    (hr : ∀ left stage, r.fate = .passed left stage → ∃ reason fault, stage = .rejected reason fault) :
    Placed q (ledger ++ [r]) := by
  have same (t : Task) (stage : Stage) (hn : ∀ reason fault, stage ≠ .rejected reason fault) :
      Ledger.Has (ledger ++ [r]) t stage ↔ ledger.Has t stage := by
    rw [Ledger.has_append_iff]
    refine or_iff_left fun h => ?_
    obtain ⟨reason, fault, hst⟩ := hr _ _ h.1
    exact hn reason fault hst
  exact
    { sound := hp.sound
      waiting := fun t => by rw [same t .waiting (by simp)]; exact hp.waiting t
      order := hp.order
      hand := fun t stage hst => by
        rw [same t stage (by rintro reason fault rfl; cases hst)]
        exact hp.hand t stage hst
      returned := fun t fault h => by
        obtain ⟨ending, hh, hf⟩ := hp.returned t fault h
        exact ⟨ending, (same t (.started _) (by simp)).2 hh, hf⟩
      broken := fun fault => by
        simp only [same _ (.cancelled (some fault)) (by simp)]
        exact hp.broken fault }

/-- A submission that was accepted comes last. -/
theorem last (hp : Placed q ledger) {r : Record} {left : Envelope}
    (hr : r.fate = .passed left .waiting) (room : q.refusal? = none) :
    Placed { q with occupied := q.occupied + 1, waiting := q.waiting ++ [r.task ledger.length left] }
      (ledger ++ [r]) := by
  have hu : Queue.unstarted
      { q with occupied := q.occupied + 1, waiting := q.waiting ++ [r.task ledger.length left] } =
      q.unstarted ++ [r.task ledger.length left] := by
    simp [Queue.unstarted]
  have same (t : Task) (stage : Stage) (hn : stage ≠ .waiting) :
      Ledger.Has (ledger ++ [r]) t stage ↔ ledger.Has t stage := by
    rw [Ledger.has_append_iff]
    refine or_iff_left fun h => hn ?_
    rw [hr] at h
    injection h.1 with _ hst
    exact hst.symm
  exact
    { sound := hp.sound.accept room _
      waiting := fun t => by
        rw [hu, List.mem_append, hp.waiting, Ledger.has_append_iff, List.mem_singleton, hr]
        refine or_congr_right ⟨?_, ?_⟩
        · rintro rfl
          exact ⟨rfl, rfl⟩
        · rintro ⟨hl, ht⟩
          injection hl with hl
          rw [hl]
          exact ht
      order := by
        rw [hu, List.pairwise_append]
        refine ⟨hp.order, List.pairwise_singleton _ _, fun t ht u hu' => ?_⟩
        obtain ⟨n, hn, hlt⟩ := ((hp.waiting t).1 ht).submission
        rw [List.mem_singleton.1 hu', hn]
        exact hlt
      hand := fun t stage hst => by
        rw [same t stage (by rintro rfl; cases hst)]
        exact hp.hand t stage hst
      returned := fun t fault h => by
        obtain ⟨ending, hh, hf⟩ := hp.returned t fault h
        exact ⟨ending, (same t (.started _) (by simp)).2 hh, hf⟩
      broken := fun fault => by
        simp only [same _ (.cancelled (some fault)) (by simp)]
        exact hp.broken fault }

theorem entered {s : Scene} {r : Record} {transport : Transport}
    (hp : Placed s.transport.queue s.ledger) (hn : s.ledger.length = s.world.submissions)
    (he : Enters s r transport) : Placed transport.queue (s.ledger ++ [r]) := by
  cases he with
  | accepted left fate room =>
    rw [← hn]
    exact hp.last fate room
  | dropped fault fate =>
    refine hp.elsewhere fun left stage h => ?_
    rw [fate] at h
    cases h
  | rejected left reason fault fate =>
    refine hp.elsewhere fun left' stage h => ?_
    rw [fate] at h
    cases h
    exact ⟨reason, fault, rfl⟩

end Placed
end Courier.Transport
