import Courier.Proofs.RateLimit.Log
import Courier.Proofs.Transport.Ledger

/-!
# What the limits leave of an envelope

`RateLimits.Throttled` says by the deadlines alone which categories are held back.
`filter_of_throttled` says what follows for an envelope: it is dropped exactly if it has items and all
of them are held back, and otherwise the other items go on, in their order. Only the hint of an
envelope that is dropped hears of it.
-/

namespace Courier

namespace RateLimits

variable {limits : RateLimits} {now : Instant} {c : Category} {e : Envelope}

/-- Whether a deadline is ahead for items of a category: its own one or that of the default
category. -/
def Throttled (limits : RateLimits) (now : Instant) (c : Category) : Prop :=
  ∃ d, (limits.deadline c = some d ∨ limits.deadline .default = some d) ∧ now < d

theorem isLimited_iff : limits.isLimited now c = true ↔ limits.Throttled now c := by
  rw [isLimited, Bool.or_eq_true, isActive_iff, isActive_iff, ← exists_or]
  simp only [Throttled, or_and_right]

instance : Decidable (limits.Throttled now c) := decidable_of_iff _ isLimited_iff

/-! ## Parts of an envelope -/

theorem heldBack_eq_nil_iff :
    limits.heldBack now e = [] ↔ ∀ i ∈ e.items, ¬ limits.Throttled now i.category := by
  simp only [heldBack, List.filter_eq_nil_iff, isLimited_iff]

theorem items_passed (limits : RateLimits) (now : Instant) (e : Envelope) :
    (limits.passed now e).items = e.items.filter fun i => ¬ limits.Throttled now i.category := by
  rw [passed, Envelope.items_retain]
  refine List.filter_congr fun i _ => ?_
  rw [Bool.eq_iff_iff, Bool.not_eq_true', ← Bool.not_eq_true, isLimited_iff, decide_eq_true_iff]

theorem isEmpty_passed_iff :
    (limits.passed now e).isEmpty = true ↔ ∀ i ∈ e.items, limits.Throttled now i.category := by
  rw [Envelope.isEmpty, List.isEmpty_iff, items_passed, List.filter_eq_nil_iff]
  simp only [decide_eq_true_iff, not_not]

theorem passed_of_heldBack_eq_nil (h : limits.heldBack now e = []) : limits.passed now e = e := by
  have hitems : (limits.passed now e).items = e.items := by
    rw [items_passed, List.filter_eq_self]
    exact fun i hi => decide_eq_true (heldBack_eq_nil_iff.1 h i hi)
  rw [passed] at hitems ⊢
  exact congrArg (Envelope.mk e.key e.header) hitems

theorem heldBack_passed (limits : RateLimits) (now : Instant) (e : Envelope) :
    limits.heldBack now (limits.passed now e) = [] := by
  rw [heldBack_eq_nil_iff, items_passed]
  exact fun i hi => of_decide_eq_true (List.mem_filter.1 hi).2

/-- What is left of an envelope. -/
theorem fst_filter_eq (limits : RateLimits) (now : Instant) (e : Envelope) :
    (limits.filter now e).1 =
      if e.items ≠ [] ∧ ∀ i ∈ e.items, limits.Throttled now i.category then none
      else some (limits.passed now e) := by
  unfold filter
  dsimp only
  by_cases hnone : limits.heldBack now e = []
  · have hall : ¬ (e.items ≠ [] ∧ ∀ i ∈ e.items, limits.Throttled now i.category) := by
      rintro ⟨hne, hall⟩
      obtain ⟨i, hi⟩ := List.exists_mem_of_ne_nil _ hne
      exact heldBack_eq_nil_iff.1 hnone i hi (hall i hi)
    rw [if_pos hnone, if_neg hall, passed_of_heldBack_eq_nil hnone]
  · have hne : e.items ≠ [] := by
      intro h
      rw [heldBack, h] at hnone
      exact hnone rfl
    rw [if_neg hnone]
    simp only [isEmpty_passed_iff, hne, ne_eq, not_false_eq_true, true_and]
    split <;> rfl

end RateLimits

namespace Collaborators

open RateLimits

/-- What passed the limits passes them again, and nothing happens. -/
theorem filter_passed {w : Collaborators} {e : Envelope} (h : w.limits.heldBack w.clock e = [])
    (p : Place) (hint : Option HintId) : w.filter p e hint = (some e, w) := by
  unfold filter
  rw [filter_of_heldBack_eq_nil h]
  show (some e, { w with journal := w.journal ++ [] }) = _
  rw [List.append_nil]

/-- If something is left of an envelope, its hint hears nothing. -/
theorem hints_filter {w : Collaborators} {p : Place} {e left : Envelope} {hint : Option HintId}
    (h : (w.filter p e hint).1 = some left) : (w.filter p e hint).2.hints = w.hints := by
  unfold filter at h ⊢
  rcases hf : w.limits.filter w.clock e with ⟨_ | passing, notices⟩
  · rw [hf] at h
    cases h
  · rfl

/-- **Limits on envelopes.** An envelope is dropped if and only if it has items and all of them are
held back. Otherwise what is left has its key, its header and, in their order, all items that are not
held back; it is the envelope itself if no item is held back, and it passes again as it is. The hint
hears only of an envelope that is dropped, and then that it failed and that no other attempt is
worthwhile. The limits stay as they were. -/
theorem filter_of_throttled (w : Collaborators) (p : Place) (e : Envelope) (hint : Option HintId) :
    let limited (i : Item) := w.limits.Throttled w.clock i.category
    let after := (w.filter p e hint).2
    ((w.filter p e hint).1 = none ↔ e.items ≠ [] ∧ ∀ i ∈ e.items, limited i) ∧
    (∀ left, (w.filter p e hint).1 = some left →
      left.key = e.key ∧ left.header = e.header ∧
      left.items = e.items.filter (fun i => ¬ limited i) ∧
      ((∀ i ∈ e.items, ¬ limited i) → left = e) ∧
      after.hints = w.hints ∧
      ∀ p' hint', after.filter p' left hint' = (some left, after)) ∧
    Grows p (if (w.filter p e hint).1 = none then
      reporting (w.capabilities hint) hint false ++ retrying (w.capabilities hint) hint false
      else []) w after ∧
    after.limits = w.limits := by
  intro limited after
  have g := grows_filter p e hint w
  have hleft := (fst_filter p e hint w).trans (fst_filter_eq w.limits w.clock e)
  rw [← fst_filter p e hint w] at g
  refine ⟨?_, fun left h => ?_, g, limits_congr g.surroundings⟩
  · rw [hleft]
    split
    next h => exact iff_of_true rfl h
    next h => exact iff_of_false (fun hn => by cases hn) h
  · rw [hleft] at h
    split at h
    next => cases h
    next hpass =>
      obtain rfl := Option.some.inj h
      have hitems := items_passed w.limits w.clock e
      have hagain : after.limits.heldBack after.clock (w.limits.passed w.clock e) = [] := by
        rw [limits_congr g.surroundings, clock_congr g.surroundings]
        exact heldBack_passed w.limits w.clock e
      refine ⟨rfl, rfl, hitems, fun hfree => ?_, ?_, fun p' hint' => filter_passed hagain p' hint'⟩
      · exact passed_of_heldBack_eq_nil (heldBack_eq_nil_iff.2 hfree)
      · exact hints_filter (hleft.trans (if_neg hpass))

/-- Transactions are limited up to the time 5, and it is 4. -/
def throttledWorld : Collaborators :=
  { Transport.sampleWorld .none with
    limits := RateLimits.empty.raise .transaction 5
    clock := 4
    hints := [Hint.flush] }

/-- An envelope with an error between two transactions. -/
def mixedEnvelope : Envelope :=
  ⟨"mixed", ⟨none, none⟩, [⟨.transaction, []⟩, ⟨.error, []⟩, ⟨.transaction, []⟩]⟩

/-- Of an envelope the error is left. The transactions alone are dropped, and their hint hears it. -/
theorem filter_mixedEnvelope :
    let p : Place := ⟨.caller, some 0⟩
    let error : Envelope := ⟨"mixed", ⟨none, none⟩, [⟨.error, []⟩]⟩
    let transactions : Envelope := ⟨"rest", ⟨none, none⟩, [⟨.transaction, []⟩, ⟨.transaction, []⟩]⟩
    (throttledWorld.filter p mixedEnvelope (some 0)).1 = some error ∧
      error.items = mixedEnvelope.items.filter
        (fun i => ¬ throttledWorld.limits.Throttled throttledWorld.clock i.category) ∧
      (throttledWorld.filter p transactions (some 0)).1 = none ∧
      (throttledWorld.filter p transactions (some 0)).2.journal.effects 0 =
        [.setResult 0 false, .setRetry 0 false] := by
  intro p error transactions
  obtain ⟨-, kept, -⟩ := filter_of_throttled throttledWorld p mixedEnvelope (some 0)
  obtain ⟨dropped, -, g, -⟩ := filter_of_throttled throttledWorld p transactions (some 0)
  have hleft : (throttledWorld.filter p mixedEnvelope (some 0)).1 = some error := rfl
  have hnone := dropped.2 (by decide)
  rw [if_pos hnone] at g
  exact ⟨hleft, (kept error hleft).2.2.1, hnone, effects_of_grows g rfl⟩

end Collaborators
end Courier
