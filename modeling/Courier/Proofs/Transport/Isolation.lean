import Courier.Proofs.Transport.Alike

/-!
# Submissions do not see each other's replies

Take two runs of a transport that are the same but for the reply to one submission. `agree_of_runs` says
that after every step they agree on everything else: on what happened for other submissions and what
became of them, on the slots that are taken, on the state of the queue, and on whether the transport is
closed.
-/

namespace Courier.Transport

open Collaborators

variable {known : HintId → Prop} {s s' : Scene} {w : Collaborators}

/-! ## Two runs -/

/-- In the moves `moves` from the scene `s`, the connection gives the submission `n` this reply. -/
def Gives (moves : List Move) (s : Scene) (n : SubmissionId) (reply : Reply) : Prop :=
  ∃ k, moves[k]? = some .work ∧ (Scene.run (moves.take k) s).draw? = some (n, reply)

/-- What two runs have in common that differ in the reply to the submission `b`. -/
structure Agree (b : SubmissionId) (s s' : Scene) : Prop where
  /-- Whatever happens does so in both, apart from what belongs to `b`. -/
  journal : s'.world.journal.beside (some b) = s.world.journal.beside (some b)
  length : s'.ledger.length = s.ledger.length
  fates : ∀ n, n ≠ b → s'.ledger[n]? = s.ledger[n]?
  /-- Either nothing differs, or `b` was answered in both. -/
  own : s'.world.journal = s.world.journal ∧ s'.ledger = s.ledger ∨
    ∃ r r', s.ledger[b]? = some r ∧ s'.ledger[b]? = some r' ∧
      r.fate.isAnswered = true ∧ r'.fate.isAnswered = true
  pending : s'.transport.pending = s.transport.pending
  state : s'.transport.queue.state = s.transport.queue.state
  closed : s'.transport.closed = s.transport.closed

theorem Alike.agree {b : SubmissionId}
    (h : Alike none (fun _ => True) s s' ∨ Alike (some b) known s s') : Agree b s s' := by
  rcases h with h | h
  · have hj := (h.world.weaken (some b) (fun _ => True)).journal
    have hj' := h.world.journal
    rw [Journal.beside_none, Journal.beside_none] at hj'
    have hl : s'.ledger = s.ledger := List.ext_getElem? fun n => h.ledger n (by simp)
    exact ⟨hj, h.length, fun n _ => h.ledger n (by simp), .inl ⟨hj', hl⟩, h.transport.occupied,
      h.transport.state, h.transport.closed⟩
  · obtain ⟨r, fate, hr, hr', hanswered⟩ := h.own b rfl
    exact ⟨h.world.journal, h.length, fun n hn => h.ledger n (by simpa using hn),
      .inr ⟨r, _, hr, hr', hanswered⟩, h.transport.occupied, h.transport.state, h.transport.closed⟩

theorem eq_take_append {moves : List Move} {k : Nat} {m : Move} (h : moves[k]? = some m) :
    moves = moves.take k ++ m :: moves.drop (k + 1) := by
  obtain ⟨hk, rfl⟩ := List.getElem?_eq_some_iff.1 h
  rw [← List.drop_eq_getElem_cons hk, List.take_append_drop]

section Runs

variable {b : SubmissionId} {moves moves' : List Move} {s₀ s₀' : Scene}

/-- The hint is attached to another submission than `b`, or to none. -/
def OtherHint (moves : List Move) (b : SubmissionId) (id : HintId) : Prop :=
  ∀ e, (moves.flatMap Move.sends)[b]? ≠ some (e, some id)

theorem getElem?_sends (hl : s₀.ledger = []) (k : Nat) {n : SubmissionId} {r : Record}
    (hr : (Scene.run (moves.take k) s₀).ledger[n]? = some r) :
    (moves.flatMap Move.sends)[n]? = some (r.envelope, r.hint) := by
  have hs := Scene.submitted_run (moves.take k) s₀
  rw [Scene.submitted, Scene.submitted, hl, List.map_nil, List.nil_append] at hs
  have hn : ((moves.take k).flatMap Move.sends)[n]? = some (r.envelope, r.hint) := by
    rw [← hs, List.getElem?_map, hr]
    rfl
  have hsplit : moves.flatMap Move.sends =
      (moves.take k).flatMap Move.sends ++ (moves.drop k).flatMap Move.sends := by
    rw [← List.flatMap_append, List.take_append_drop]
  rw [hsplit, List.getElem?_append_left (List.getElem?_eq_some_iff.1 hn).1, hn]

theorem getElem?_sends_of_send (hl : s₀.ledger = []) {k : Nat} {e : Envelope}
    {hint : Option HintId} (hm : moves[k]? = some (.send e hint)) :
    (moves.flatMap Move.sends)[(Scene.run (moves.take k) s₀).ledger.length]? = some (e, hint) := by
  have hs := congrArg List.length (Scene.submitted_run (moves.take k) s₀)
  rw [Scene.submitted, Scene.submitted, hl, List.length_map, List.map_nil, List.nil_append] at hs
  have hsplit : moves.flatMap Move.sends = (moves.take k).flatMap Move.sends ++
      (e, hint) :: (moves.drop (k + 1)).flatMap Move.sends := by
    conv_lhs => rw [eq_take_append hm]
    rw [List.flatMap_append, List.flatMap_cons]
    rfl
  rw [hsplit, hs, List.getElem?_append_right (Nat.le_refl _), Nat.sub_self]
  rfl

variable (hb₀ : s₀.Balanced) (hl : s₀.ledger = []) (hc : s₀.world.cache.isOnDisk = false)
  (hmoves : moves'.map Move.plain = moves.map Move.plain)
  (halone : ∀ n e e' id, (moves.flatMap Move.sends)[b]? = some (e, some id) →
    (moves.flatMap Move.sends)[n]? = some (e', some id) → n = b)
  (hsame : ∀ n reply reply', n ≠ b → Gives moves s₀ n reply → Gives moves' s₀' n reply' →
    reply' = reply)
  (hfree : ∀ reply, Gives moves s₀ b reply ∨ Gives moves' s₀' b reply →
    ∀ latch rest, reply ≠ .held latch rest)
include hb₀ hl hc hmoves halone hsame hfree

/-- Two runs stay alike, or part when the submission `b` is answered and stay alike but for it. -/
theorem alike_run (h₀ : Alike none (fun _ => True) s₀ s₀') (k : Nat) :
    Alike none (fun _ => True) (Scene.run (moves.take k) s₀) (Scene.run (moves'.take k) s₀') ∨
      Alike (some b) (OtherHint moves b) (Scene.run (moves.take k) s₀)
        (Scene.run (moves'.take k) s₀') := by
  induction k with
  | zero => exact .inl h₀
  | succ k ih =>
    have hplain : moves'[k]?.map Move.plain = moves[k]?.map Move.plain := by
      rw [← List.getElem?_map, ← List.getElem?_map, hmoves]
    rw [List.take_add_one, List.take_add_one, Scene.run_append, Scene.run_append]
    cases hm : moves[k]? with
    | none =>
      rw [hm] at hplain
      cases hm' : moves'[k]? with
      | none => exact ih
      | some m' => rw [hm'] at hplain; cases hplain
    | some m =>
      rw [hm] at hplain
      cases hm' : moves'[k]? with
      | none => rw [hm'] at hplain; cases hplain
      | some m' =>
        rw [hm'] at hplain
        have hdisk := Scene.run_induction (P := fun s => s.world.cache.isOnDisk = false)
          (fun s m h => (s.isOnDisk_move m).trans h) hc (moves.take k)
        refine alike_step ih (hb₀.run _) hdisk (fun n r id hr hid => ?_) (Option.some.inj hplain)
          (fun e hint id he hid hn e' hb' => ?_) ?_ ?_
        · have hsends : (moves.flatMap Move.sends)[n]? = some (r.envelope, r.hint) :=
            getElem?_sends hl k hr
          rw [hid] at hsends
          refine ⟨fun hother hn => hother r.envelope (hn ▸ hsends), fun hn e he => hn ?_⟩
          exact halone n e r.envelope id he hsends
        · rw [he, hid] at hm
          exact hn (halone _ e' e id hb' (getElem?_sends_of_send hl hm))
        · rintro rfl n reply reply' hn hd hd'
          obtain rfl := Move.eq_work_of_plain (Option.some.inj hplain)
          exact hsame n reply reply' hn ⟨k, hm, hd⟩ ⟨k, hm', hd'⟩
        · rintro rfl reply hd
          obtain rfl := Move.eq_work_of_plain (Option.some.inj hplain)
          exact hfree reply (hd.imp (fun hd => ⟨k, hm, hd⟩) fun hd => ⟨k, hm', hd⟩)

end Runs

/-- The replies that a connection will give are not seen when a transport starts. -/
theorem start_connection {settings : TransportSettings} {limited : Bool} {c : Connection}
    {tr tr' : Transport} {w₁ w₁' : Collaborators} (hs : start settings limited w = (.ok tr, w₁))
    (hs' : start settings limited { w with connection := c } = (.ok tr', w₁')) :
    Alike none (fun _ => True) ⟨tr, w₁, []⟩ ⟨tr', w₁', []⟩ := by
  have hw : Like none (fun _ => True) w { w with connection := c } := ⟨rfl, rfl, fun _ _ => rfl, rfl⟩
  unfold start at hs hs'
  cases hv : settings.validate with
  | error e =>
    rw [hv] at hs
    cases hs
  | ok _ =>
    rw [hv] at hs hs'
    cases hs
    cases hs'
    exact ⟨hw.log _ _, .same, rfl, fun _ _ => rfl, fun _ h => by cases h⟩

/-- **Isolation.** Take two runs over a cache that keeps no files, which are the same but for the replies
that are scripted, and let every submission other than `b` that is given to the connection in both get the
same reply in both, and `b` a reply that is not held back; let the hint of `b` be attached to no other
submission. After every step the two runs agree on whatever happened, in order, apart from what belongs
to `b`, on what became of every other submission, and on what is pending, the state of the queue and
whether the transport is closed. If `b` was not answered they agree on everything. -/
theorem agree_of_runs {settings : TransportSettings} {limited : Bool} {c : Connection}
    {tr tr' : Transport} {w₁ w₁' : Collaborators} (hu : Unused w)
    (hdisk : w.cache.isOnDisk = false) (hs : start settings limited w = (.ok tr, w₁))
    (hs' : start settings limited { w with connection := c } = (.ok tr', w₁'))
    {moves moves' : List Move} (hmoves : moves'.map Move.plain = moves.map Move.plain)
    {b : SubmissionId}
    (halone : ∀ n e e' id, (moves.flatMap Move.sends)[b]? = some (e, some id) →
      (moves.flatMap Move.sends)[n]? = some (e', some id) → n = b)
    (hsame : ∀ n reply reply', n ≠ b → Gives moves ⟨tr, w₁, []⟩ n reply →
      Gives moves' ⟨tr', w₁', []⟩ n reply' → reply' = reply)
    (hfree : ∀ reply, Gives moves ⟨tr, w₁, []⟩ b reply ∨ Gives moves' ⟨tr', w₁', []⟩ b reply →
      ∀ latch rest, reply ≠ .held latch rest) (k : Nat) :
    Agree b (Scene.run (moves.take k) ⟨tr, w₁, []⟩) (Scene.run (moves'.take k) ⟨tr', w₁', []⟩) := by
  have hc : w₁.cache.isOnDisk = false := by
    unfold start at hs
    split at hs
    · cases hs
    · cases hs
      exact hdisk
  exact Alike.agree (alike_run (balanced_start hu hs) rfl hc hmoves halone hsame hfree
    (start_connection hs hs') k)

/-- Two envelopes are sent, each with a hint of its own. -/
def pairMoves : List Move :=
  [.send (sampleEnvelope "first") (some 0), .send (sampleEnvelope "second") (some 1), .work, .work,
    .work, .work, .work, .work]

def pairScene (w : Collaborators) : Scene :=
  ⟨⟨sampleSettings, false, Queue.create 2, false⟩, w.log here (.transportStarted 2 0), []⟩

/-- A world in which the connection breaks off on the first envelope. -/
def faultyWorld : Collaborators :=
  { hintedWorld with connection := ⟨[.fault .other], .answer (.accepted 200)⟩ }

theorem pair_of_gives {first second : Reply}
    (hw : ∀ k < 8, (Scene.run (pairMoves.take k) (pairScene w)).draw? =
      if k = 3 then some (0, first) else if k = 6 then some (1, second) else none)
    {n : SubmissionId} {reply : Reply} (h : Gives pairMoves (pairScene w) n reply) :
    n = 0 ∧ reply = first ∨ n = 1 ∧ reply = second := by
  obtain ⟨k, hk, hd⟩ := h
  rw [hw k (List.getElem?_eq_some_iff.1 hk).1] at hd
  split at hd
  · cases hd
    exact .inl ⟨rfl, rfl⟩
  · split at hd
    · cases hd
      exact .inr ⟨rfl, rfl⟩
    · cases hd

/-- The server takes the first envelope, or the connection breaks off on it. -/
theorem agree_of_fault :
    let s := Scene.run pairMoves (pairScene hintedWorld)
    let s' := Scene.run pairMoves (pairScene faultyWorld)
    Agree 0 s s' ∧
      s.ledger[0]?.map Record.fate =
        some (.passed (sampleEnvelope "first") (.started (.ended (.delivered (some 200))))) ∧
      s'.ledger[0]?.map Record.fate =
        some (.passed (sampleEnvelope "first") (.started (.ended (.sendBroke .other)))) := by
  have accepted {n : SubmissionId} {reply : Reply}
      (h : Gives pairMoves (pairScene hintedWorld) n reply) :
      n = 0 ∧ reply = .answer (.accepted 200) ∨ n = 1 ∧ reply = .answer (.accepted 200) :=
    pair_of_gives (by decide +kernel) h
  have broken {n : SubmissionId} {reply : Reply}
      (h : Gives pairMoves (pairScene faultyWorld) n reply) :
      n = 0 ∧ reply = .fault .other ∨ n = 1 ∧ reply = .answer (.accepted 200) :=
    pair_of_gives (by decide +kernel) h
  have hu : Unused hintedWorld := ⟨rfl, fun _ h => by cases h⟩
  refine ⟨agree_of_runs hu rfl (start_of_ne_zero (by decide) false hintedWorld)
    (start_of_ne_zero (by decide) false faultyWorld) (Eq.refl (pairMoves.map Move.plain)) ?_ ?_ ?_ 8,
    by decide +kernel, by decide +kernel⟩
  · rintro (_ | _ | n) e e' id hfirst hother
    · rfl
    · cases hfirst
      cases hother
    · cases hother
  · intro n reply reply' hn hgives hgives'
    rcases accepted hgives with ⟨h, -⟩ | ⟨-, rfl⟩
    · exact absurd h hn
    · rcases broken hgives' with ⟨h, -⟩ | ⟨-, rfl⟩
      · exact absurd h hn
      · rfl
  · rintro reply (hgives | hgives) latch rest
    · rcases accepted hgives with ⟨-, rfl⟩ | ⟨h, -⟩
      · exact fun h => by cases h
      · cases h
    · rcases broken hgives with ⟨-, rfl⟩ | ⟨h, -⟩
      · exact fun h => by cases h
      · cases h

end Courier.Transport
