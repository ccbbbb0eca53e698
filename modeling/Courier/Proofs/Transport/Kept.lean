import Courier.Proofs.Cache.Stock
import Courier.Proofs.Transport.Calls

/-!
# What is kept for a submission

`Record.kept?` is the table of what is in the cache for a submission, by what became of it. `Kept`
says that the directory of a cache holds exactly that for a whole ledger. The calls made for one
record bring it there, and change nothing else in the directory (`kept_replay`).
-/

namespace Courier.Transport

open Collaborators DiskCache

variable {c : DiskCache} {w : Collaborators} {fs : FileSystem} {stock : List (String × Bytes)}

/-! ## The table -/

/-- The envelope that is kept for a submission: what the limits left of it, from the moment at which
it was refused or cancelled or its run began, until it is delivered. -/
def Record.kept? (r : Record) : Option Envelope :=
  match r.fate with
  | .dropped _ | .passed _ .waiting | .passed _ .dropping => none
  | .passed left (.rejected ..) | .passed left (.cancelled _) => some left
  | .passed left (.started standing) => if standing.isDelivered then none else some left

/-- The directory of the cache holds for a submission what its record says. -/
def Record.OnDisk (r : Record) (c : DiskCache) (fs : FileSystem) : Prop :=
  match r.kept? with
  | none => fs.read (c.entryPath r.envelope.key) = .error .notFound
  | some left => ∃ bytes, left.write? = some bytes ∧
      fs.read (c.entryPath r.envelope.key) = .ok bytes

/-! ## From calls to files -/

/-- Whether an envelope is kept after some calls for it. -/
def keptAfter (kept : Bool) : List Event → Bool
  | [] => kept
  | .store .. :: u => keptAfter true u
  | .discard _ :: u => keptAfter false u
  | _ :: u => keptAfter kept u

theorem keptAfter_append (kept : Bool) (u v : List Event) :
    keptAfter kept (u ++ v) = keptAfter (keptAfter kept u) v := by
  induction u generalizing kept with
  | nil => rfl
  | cons event u ih => cases event <;> exact ih _

/-- The envelope that a call of the cache is about. -/
def inCall : Event → Option Envelope
  | .store e _ | .discard e => some e
  | .log _ | .askGate _ | .send _ | .setRetry .. | .setResult .. | .markFlushed _ => none

/-- The calls of the cache are all about one envelope. -/
def About (left : Envelope) (u : List Event) : Prop := ∀ event ∈ u, ∀ e ∈ inCall event, e = left

/-- The calls for one envelope change the stock at its key, as they should, and nowhere else. -/
theorem stocked_replay {left : Envelope} {bytes : Bytes} {u : List Event} {b : Bool}
    (hs : c.Stocked fs stock) (hu : c.Usable left.key) (hw : left.write? = some bytes)
    (ha : About left u) (hk : stock.lookup left.key = if b then some bytes else none)
    (room : (stock.filter fun p => p.1 ≠ left.key).length < c.maxItems) :
    ∃ stock', c.Stocked ((Cache.disk c).replay fs u) stock' ∧
      stock'.lookup left.key = (if keptAfter b u then some bytes else none) ∧
      (stock'.filter fun p => p.1 ≠ left.key) = stock.filter fun p => p.1 ≠ left.key := by
  induction u generalizing fs stock b with
  | nil => exact ⟨stock, hs, hk, rfl⟩
  | cons event u ih =>
    have ha' : About left u := fun event h => ha event (List.mem_cons_of_mem _ h)
    have hevent := ha event List.mem_cons_self
    cases event with
    | store e hinted =>
      obtain rfl := hevent e rfl
      show ∃ stock', c.Stocked ((Cache.disk c).replay (c.store fs e).1 u) stock' ∧ _
      cases b with
      | true =>
        rw [hs.store_again hu hk]
        exact ih hs ha' hk room
      | false =>
        have hn : stock.lookup e.key = none := hk
        have room' := room
        rw [filter_of_lookup_eq_none hn] at room'
        have hf : (((e.key, bytes) :: stock).filter fun p => p.1 ≠ e.key) =
            stock.filter fun p => p.1 ≠ e.key := List.filter_cons_of_neg (by simp)
        obtain ⟨stock', hs', hk', hf'⟩ := ih (b := true) (hs.store hu hn room' hw) ha'
          List.lookup_cons_self (by rw [hf]; exact room)
        exact ⟨stock', hs', hk', hf'.trans hf⟩
    | discard e =>
      obtain rfl := hevent e rfl
      show ∃ stock', c.Stocked ((Cache.disk c).replay (c.discard fs e).1 u) stock' ∧ _
      have hf : ((stock.filter fun p => p.1 ≠ e.key).filter fun p => p.1 ≠ e.key) =
          stock.filter fun p => p.1 ≠ e.key := by simp [List.filter_filter]
      obtain ⟨stock', hs', hk', hf'⟩ := ih (b := false) (hs.discard hu) ha'
        FileSystem.lookup_filter_self (by rw [hf]; exact room)
      exact ⟨stock', hs', hk', hf'.trans hf⟩
    | log notice => exact ih hs ha' hk room
    | askGate connected => exact ih hs ha' hk room
    | send e => exact ih hs ha' hk room
    | setRetry hint value => exact ih hs ha' hk room
    | setResult hint value => exact ih hs ha' hk room
    | markFlushed hint => exact ih hs ha' hk room

/-! ## The calls of a record -/

theorem keptAfter_filter (b : Bool) (u : List Event) :
    keptAfter b (u.filter Event.isCall) = keptAfter b u := by
  induction u generalizing b with
  | nil => rfl
  | cons event u ih => cases event <;> exact ih _

theorem about_filter {left : Envelope} {u : List Event} :
    About left (u.filter Event.isCall) ↔ About left u := by
  refine ⟨fun h event he e hs => ?_, fun h event he => h event (List.mem_filter.1 he).1⟩
  refine h event (List.mem_filter.2 ⟨he, ?_⟩) e hs
  cases event <;> first | rfl | cases hs

theorem keptAfter_notifying (b : Bool) (can : Capabilities) (hint : Option HintId) :
    keptAfter b (notifying can hint) = b := by
  unfold notifying
  split
  · split <;> rfl
  · rfl

theorem keptAfter_callsOfRun (left : Envelope) (hint : Option HintId) {can : Capabilities}
    (hc : can.cached = false) (standing : Standing) :
    keptAfter false (callsOfRun left hint can standing) = ! standing.isDelivered := by
  have hn : keptAfter true (if standing.isStored then notifying can hint else []) = true := by
    split
    · exact keptAfter_notifying true can hint
    · rfl
  have ha : keptAfter true (asking standing) = true := by
    rcases standing with reply | ending
    · rfl
    · cases ending <;> rfl
  have hs : keptAfter true (if standing.isSent then [.send left] else []) = true := by
    split <;> rfl
  unfold callsOfRun
  rw [hc]
  simp only [keptAfter_append, Bool.false_eq_true, if_false]
  show keptAfter (keptAfter (keptAfter (keptAfter true _) _) _) _ = _
  rw [hn, ha, hs]
  cases standing.isDelivered <;> rfl

/-- What is kept for a fresh submission follows from the calls that were made for it. -/
theorem keptAfter_effects {r : Record} (hc : r.can.cached = false) (n : SubmissionId) :
    keptAfter false (r.effects n) = r.kept?.isSome := by
  rw [← keptAfter_filter, calls_effects]
  unfold Record.calls Record.kept?
  cases hf : r.fate with
  | dropped fault => simp [hc, keptAfter]
  | passed left stage =>
    cases stage with
    | rejected reason fault => simp [hc, keptAfter]
    | waiting => rfl
    | dropping => rfl
    | cancelled fault => simp [hc, keptAfter]
    | started standing =>
      refine (keptAfter_callsOfRun left r.hint hc standing).trans ?_
      cases hd : standing.isDelivered <;> simp [hd]

/-- The envelope of a record that its cache is asked about. -/
def Record.subject (r : Record) : Envelope :=
  match r.fate with
  | .dropped _ => r.envelope
  | .passed left _ => left

theorem about_callsOfRun (left : Envelope) (hint : Option HintId) (can : Capabilities)
    (standing : Standing) : About left (callsOfRun left hint can standing) := by
  have notified (event) (h : event ∈ notifying can hint) : inCall event = none := by
    unfold notifying at h
    split at h
    · split at h
      · rw [List.mem_singleton.1 h]
        rfl
      · cases h
    · cases h
  have asked (event) (h : event ∈ asking standing) : inCall event = none := by
    rcases standing with reply | ending
    · rw [List.mem_singleton.1 h]
      rfl
    · cases ending <;> simp [asking] at h <;> rw [h] <;> rfl
  intro event h e he
  unfold callsOfRun at h
  simp only [List.mem_append, List.mem_ite_nil_left, List.mem_ite_nil_right,
    List.mem_singleton] at h
  rcases h with (((⟨-, rfl⟩ | ⟨-, h⟩) | h) | ⟨-, rfl⟩) | ⟨-, rfl⟩
  · exact (Option.some.inj he).symm
  · rw [notified event h] at he
    cases he
  · rw [asked event h] at he
    cases he
  · cases he
  · exact (Option.some.inj he).symm

theorem about_effects (r : Record) (n : SubmissionId) : About r.subject (r.effects n) := by
  have none_of : About r.subject [] := fun _ h => by cases h
  have one {event : Event} (h : inCall event = some r.subject) : About r.subject [event] := by
    intro event' he e hs
    rw [List.mem_singleton.1 he, h] at hs
    exact (Option.some.inj hs).symm
  rw [← about_filter, calls_effects]
  unfold Record.calls
  unfold Record.subject at none_of one ⊢
  cases hf : r.fate with
  | dropped fault =>
    simp only [hf] at none_of one ⊢
    split
    · exact one rfl
    · exact none_of
  | passed left stage =>
    simp only [hf] at none_of one ⊢
    cases stage with
    | rejected reason fault =>
      simp only
      split
      · exact none_of
      · exact one rfl
    | waiting => exact none_of
    | dropping => exact none_of
    | cancelled fault =>
      simp only
      split
      · exact none_of
      · exact one rfl
    | started standing => exact about_callsOfRun left r.hint r.can standing

/-! ## The invariant -/

/-- Submissions that were fresh, with different keys that can be names of files, with times that can
be written, and no more of them than there is room for. -/
structure Fresh (c : DiskCache) (w : Collaborators) (sent : List (Envelope × Option HintId)) : Prop where
  uncached : ∀ p ∈ sent, (w.capabilities p.2).cached = false
  usable : ∀ p ∈ sent, c.Usable p.1.key
  inTime : ∀ p ∈ sent, ∀ time, p.1.header.sentAt = some time → time.isBeforeEpoch = false
  keys : (sent.map fun p => p.1.key).Nodup
  room : sent.length ≤ c.maxItems

theorem Fresh.of_append {sent more : List (Envelope × Option HintId)}
    (h : Fresh c w (sent ++ more)) : Fresh c w sent where
  uncached p hp := h.uncached p (List.mem_append_left _ hp)
  usable p hp := h.usable p (List.mem_append_left _ hp)
  inTime p hp := h.inTime p (List.mem_append_left _ hp)
  keys := by
    have hk := h.keys
    rw [List.map_append] at hk
    exact (List.nodup_append.1 hk).1
  room := by
    have hr := h.room
    rw [List.length_append] at hr
    omega

/-- The directory holds what the ledger says, and nothing else. -/
def Kept (c : DiskCache) (fs : FileSystem) (ledger : Ledger) : Prop :=
  ∃ stock, c.Stocked fs stock ∧
    (∀ r ∈ ledger, stock.lookup r.envelope.key = r.kept?.bind Envelope.write?) ∧
    ∀ p ∈ stock, ∃ r ∈ ledger, p.1 = r.envelope.key

/-- What is kept for a record is its subject. -/
theorem bind_kept? (r : Record) {bytes : Bytes} (hw : r.subject.write? = some bytes) :
    r.kept?.bind Envelope.write? = if r.kept?.isSome then some bytes else none := by
  unfold Record.subject at hw
  unfold Record.kept?
  cases hf : r.fate with
  | dropped fault => rfl
  | passed left stage =>
    simp only [hf] at hw
    cases stage with
    | rejected reason fault => exact hw
    | waiting => rfl
    | dropping => rfl
    | cancelled fault => exact hw
    | started standing =>
      simp only
      split
      · rfl
      · exact hw

/-- The ledger `ledger'` is `ledger` with a record that is new, or another one of the same key. -/
structure Replaces (ledger ledger' : Ledger) (r : Record) : Prop where
  mem : r ∈ ledger'
  same : ∀ r' ∈ ledger', r' = r ∨ r' ∈ ledger ∧ r'.envelope.key ≠ r.envelope.key
  cover : ∀ r' ∈ ledger, ∃ r₁ ∈ ledger', r₁.envelope.key = r'.envelope.key

theorem Replaces.append {ledger : Ledger} {r : Record}
    (hne : ∀ r' ∈ ledger, r'.envelope.key ≠ r.envelope.key) : Replaces ledger (ledger ++ [r]) r where
  mem := List.mem_append_right _ List.mem_cons_self
  same r' hr' := by
    rcases List.mem_append.1 hr' with hr' | hr'
    · exact .inr ⟨hr', hne r' hr'⟩
    · exact .inl (List.mem_singleton.1 hr')
  cover r' hr' := ⟨r', List.mem_append_left _ hr', rfl⟩

theorem index_eq {ledger : Ledger} (hn : (ledger.map fun r => r.envelope.key).Nodup)
    {i j : SubmissionId} {r r' : Record} (hi : ledger[i]? = some r) (hj : ledger[j]? = some r')
    (hk : r.envelope.key = r'.envelope.key) : i = j := by
  refine (List.getElem?_inj ?_ hn).1 ?_
  · rw [List.length_map]
    exact (List.getElem?_eq_some_iff.1 hi).1
  · rw [List.getElem?_map, List.getElem?_map, hi, hj, Option.map_some, Option.map_some, hk]

theorem Replaces.enter {ledger : Ledger} (hk : (ledger.map fun r => r.envelope.key).Nodup) {t : Task}
    {n : SubmissionId} {r : Record} (hs : t.submission = some n) (hn : ledger[n]? = some r)
    (after : Stage) :
    Replaces ledger (ledger.enter t after) { r with fate := .passed t.envelope after } := by
  have hat := Ledger.getElem?_enter_self hs hn after
  have other {m} (hm : m ≠ n) : (ledger.enter t after)[m]? = ledger[m]? :=
    Ledger.getElem?_enter_ne (by rw [hs]; exact fun h => hm (Option.some.inj h).symm) after
  refine ⟨List.mem_of_getElem? hat, fun r' hr' => ?_, fun r' hr' => ?_⟩
  · obtain ⟨m, hm⟩ := List.mem_iff_getElem?.1 hr'
    by_cases hmn : m = n
    · subst hmn
      rw [hat] at hm
      exact .inl (Option.some.inj hm).symm
    · rw [other hmn] at hm
      exact .inr ⟨List.mem_of_getElem? hm, fun h => hmn (index_eq hk hm hn h)⟩
  · obtain ⟨m, hm⟩ := List.mem_iff_getElem?.1 hr'
    by_cases hmn : m = n
    · subst hmn
      rw [hn] at hm
      cases hm
      exact ⟨_, List.mem_of_getElem? hat, rfl⟩
    · exact ⟨r', List.mem_of_getElem? ((other hmn).trans hm), rfl⟩

/-- The file of a record can be written, with these bytes. -/
structure Storable (c : DiskCache) (r : Record) (bytes : Bytes) : Prop where
  key : r.subject.key = r.envelope.key
  usable : c.Usable r.subject.key
  written : r.subject.write? = some bytes

/-- The other files in stock are those of other records. -/
theorem length_filter_lt {ledger : Ledger} {key : String} (hs : c.Stocked fs stock)
    (hk : ∃ r ∈ ledger, r.envelope.key = key)
    (hkeys : ∀ p ∈ stock, ∃ r ∈ ledger, r.envelope.key = p.1) :
    (stock.filter fun p => p.1 ≠ key).length < ledger.length := by
  have hn : (key :: (stock.filter fun p => p.1 ≠ key).map Prod.fst).Nodup := by
    refine List.nodup_cons.2 ⟨fun h => ?_, hs.nodup.sublist (List.filter_sublist.map _)⟩
    obtain ⟨p, hp, rfl⟩ := List.mem_map.1 h
    simpa using (List.mem_filter.1 hp).2
  have hsub : key :: (stock.filter fun p => p.1 ≠ key).map Prod.fst ⊆
      ledger.map fun r => r.envelope.key := by
    intro k hmem
    rcases List.mem_cons.1 hmem with rfl | hmem
    · exact List.mem_map.2 hk
    · obtain ⟨p, hp, rfl⟩ := List.mem_map.1 hmem
      exact List.mem_map.2 (hkeys p (List.mem_filter.1 hp).1)
  have hl := hn.length_le_of_subset hsub
  rw [List.length_cons, List.length_map, List.length_map] at hl
  exact hl

/-- The calls for one record change the directory as its new fate says, and nothing else in it. -/
theorem kept_replay {ledger ledger' : Ledger} {u : List Event} {r : Record} {bytes : Bytes} {b : Bool}
    (hs : c.Stocked fs stock)
    (hold : ∀ r' ∈ ledger, stock.lookup r'.envelope.key = r'.kept?.bind Envelope.write?)
    (hkeys : ∀ p ∈ stock, ∃ r' ∈ ledger, p.1 = r'.envelope.key)
    (hr : Replaces ledger ledger' r) (hroom : ledger'.length ≤ c.maxItems)
    (hst : Storable c r bytes) (ha : About r.subject u)
    (hb : stock.lookup r.envelope.key = if b then some bytes else none)
    (hafter : keptAfter b u = r.kept?.isSome) :
    Kept c ((Cache.disk c).replay fs u) ledger' := by
  have hcover : ∀ p ∈ stock, ∃ r' ∈ ledger', r'.envelope.key = p.1 := by
    intro p hp
    obtain ⟨r', hr', hp'⟩ := hkeys p hp
    rw [hp']
    exact hr.cover r' hr'
  have room := length_filter_lt hs ⟨r, hr.mem, rfl⟩ hcover
  rw [← hst.key] at hb room
  obtain ⟨stock', hs', hk', hf'⟩ := stocked_replay hs hst.usable hst.written ha hb (by omega)
  refine ⟨stock', hs', ?_, ?_⟩
  · intro r' hr'
    rcases hr.same r' hr' with rfl | ⟨hr', hne⟩
    · rw [← hst.key, hk', hafter, bind_kept? _ hst.written]
    · rw [← hst.key] at hne
      rw [← FileSystem.lookup_filter_ne hne, hf', FileSystem.lookup_filter_ne hne]
      exact hold r' hr'
  · intro p hp
    by_cases h : p.1 = r.subject.key
    · exact ⟨r, hr.mem, h.trans hst.key⟩
    · have hp' : p ∈ stock'.filter fun p => p.1 ≠ r.subject.key :=
        List.mem_filter.2 ⟨hp, by simpa using h⟩
      rw [hf'] at hp'
      obtain ⟨r', hr', hk⟩ := hcover p (List.mem_filter.1 hp').1
      exact ⟨r', hr', hk.symm⟩

end Courier.Transport
