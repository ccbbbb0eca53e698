import Courier.Envelope.Digest
import Mathlib.Tactic.Ring

/-!
# What a digest tells apart

The bytes that are hashed can be taken apart again: each length has eight bytes, and no category's
name is the beginning of another one's (`Category.eq_of_prefix_name`). So they determine the event id
and the items, whatever bytes the payloads hold (`Item.eq_of_flatMap_preimage`).
`Envelope.digest_eq_iff` says what follows for digests.
-/

namespace Courier

/-! ## Lengths and hexadecimal digits -/

namespace Bytes

theorem toNat_littleEndian {count n : Nat} (h : n < 256 ^ count) :
    toNat (littleEndian count n) = n := by
  induction count generalizing n with
  | zero =>
    rw [Nat.pow_zero] at h
    show 0 = n
    omega
  | succ count ih =>
    have hrest : n / 256 < 256 ^ count := by
      rw [Nat.pow_succ] at h
      exact Nat.div_lt_of_lt_mul (by omega)
    have hbyte : (UInt8.ofNat (n % 256)).toNat = n % 256 := UInt8.toNat_ofNat_of_lt' (by
      show n % 256 < 256
      omega)
    show (UInt8.ofNat (n % 256)).toNat + 256 * toNat (littleEndian count (n / 256)) = n
    rw [hbyte, ih hrest]
    omega

/-- Bytes behind their length are told apart from what follows them. -/
theorem eq_of_append_framed {b c s t : Bytes} (hb : b.length < 2 ^ 64) (hc : c.length < 2 ^ 64)
    (h : littleEndian 8 b.length ++ (b ++ s) = littleEndian 8 c.length ++ (c ++ t)) :
    b = c ∧ s = t := by
  obtain ⟨hlength, hrest⟩ := List.append_inj h (by rw [length_littleEndian, length_littleEndian])
  have hsame : b.length = c.length := by
    have hnat := congrArg toNat hlength
    rwa [toNat_littleEndian (by omega), toNat_littleEndian (by omega)] at hnat
  exact List.append_inj hrest hsame

theorem digitChar_injective {m n : Nat} (hm : m < 16) (hn : n < 16)
    (h : Nat.digitChar m = Nat.digitChar n) : m = n := by
  have hall : ∀ i j : Fin 16, Nat.digitChar i = Nat.digitChar j → i = j := by decide
  exact congrArg Fin.val (hall ⟨m, hm⟩ ⟨n, hn⟩ h)

theorem hexDigits_injective {b c : Bytes} (h : hexDigits b = hexDigits c) : b = c := by
  induction b generalizing c with
  | nil =>
    cases c with
    | nil => rfl
    | cons y c => cases h
  | cons x b ih =>
    cases c with
    | nil => cases h
    | cons y c =>
      simp only [hexDigits, List.cons.injEq] at h
      obtain ⟨hhigh, hlow, hrest⟩ := h
      have hx := x.toNat_lt
      have hy := y.toNat_lt
      have high := digitChar_injective (by omega) (by omega) hhigh
      have low := digitChar_injective (by omega) (by omega) hlow
      have hxy : x = y := UInt8.toNat_inj.1 (by omega)
      rw [hxy, ih hrest]

theorem hex_injective {b c : Bytes} (h : hex b = hex c) : b = c :=
  hexDigits_injective (String.ofList_injective h)

end Bytes

/-! ## Categories and items -/

/-- No name of a category is the beginning of another one. -/
theorem Category.eq_of_prefix_name {c d : Category}
    (h : Bytes.ofText c.name <+: Bytes.ofText d.name) : c = d := by
  revert h
  cases c <;> cases d <;> decide

theorem Category.eq_of_append_name {c d : Category} {s t : Bytes}
    (h : Bytes.ofText c.name ++ s = Bytes.ofText d.name ++ t) : c = d ∧ s = t := by
  have hcd : c = d := by
    have hc : Bytes.ofText c.name <+: Bytes.ofText d.name ++ t := h ▸ List.prefix_append _ s
    rcases List.prefix_or_prefix_of_prefix hc (List.prefix_append _ t) with hle | hle
    · exact eq_of_prefix_name hle
    · exact (eq_of_prefix_name hle).symm
  subst hcd
  exact ⟨rfl, List.append_cancel_left h⟩

namespace Item

/-- The length of the payload fits into the eight bytes that are hashed of it. -/
def IsMeasured (i : Item) : Prop := i.payload.length < 2 ^ 64

instance (i : Item) : Decidable i.IsMeasured := inferInstanceAs (Decidable (_ < _))

theorem preimage_append (i : Item) (s : Bytes) : i.preimage ++ s =
    Bytes.ofText i.category.name ++ (Bytes.littleEndian 8 i.payload.length ++ (i.payload ++ s)) := by
  simp only [preimage, List.append_assoc]

theorem preimage_ne_nil (i : Item) : i.preimage ≠ [] := by
  have hlength : 0 < i.preimage.length := by
    simp only [preimage, List.length_append, Bytes.length_littleEndian]
    omega
  exact List.ne_nil_of_length_pos hlength

/-- An item is told apart from what follows it, also where its payload looks like further items. -/
theorem eq_of_append_preimage {i j : Item} {s t : Bytes} (hi : i.IsMeasured) (hj : j.IsMeasured)
    (h : i.preimage ++ s = j.preimage ++ t) : i = j ∧ s = t := by
  rw [preimage_append, preimage_append] at h
  obtain ⟨hcategory, hframed⟩ := Category.eq_of_append_name h
  obtain ⟨hpayload, hrest⟩ := Bytes.eq_of_append_framed hi hj hframed
  cases i
  cases j
  cases hcategory
  cases hpayload
  exact ⟨rfl, hrest⟩

theorem eq_of_flatMap_preimage {items others : List Item} (hi : ∀ i ∈ items, i.IsMeasured)
    (hj : ∀ j ∈ others, j.IsMeasured)
    (h : items.flatMap preimage = others.flatMap preimage) : items = others := by
  induction items generalizing others with
  | nil =>
    cases others with
    | nil => rfl
    | cons j others =>
      exact absurd (List.append_eq_nil_iff.1 h.symm).1 j.preimage_ne_nil
  | cons i items ih =>
    cases others with
    | nil => exact absurd (List.append_eq_nil_iff.1 h).1 i.preimage_ne_nil
    | cons j others =>
      obtain ⟨hitem, hrest⟩ := eq_of_append_preimage (hi i List.mem_cons_self)
        (hj j List.mem_cons_self) h
      have hmore := ih (fun k hk => hi k (List.mem_cons_of_mem i hk))
        (fun k hk => hj k (List.mem_cons_of_mem j hk)) hrest
      rw [hitem, hmore]

end Item

/-! ## Envelopes -/

namespace Envelope

/-- The lengths of the event id and of all payloads fit into the eight bytes that are hashed of each. -/
structure IsMeasured (e : Envelope) : Prop where
  eventId : ∀ id, e.eventId = some id → (Bytes.ofText id).length < 2 ^ 64
  items : ∀ i ∈ e.items, i.IsMeasured

/-- The event id is told apart from what follows it. -/
theorem eq_of_append_eventIdPreimage {a b : Option String} {s t : Bytes}
    (ha : ∀ id, a = some id → (Bytes.ofText id).length < 2 ^ 64)
    (hb : ∀ id, b = some id → (Bytes.ofText id).length < 2 ^ 64)
    (h : eventIdPreimage a ++ s = eventIdPreimage b ++ t) : a = b ∧ s = t := by
  cases a with
  | none =>
    cases b with
    | none => exact ⟨rfl, (List.cons.inj h).2⟩
    | some id => exact absurd (List.cons.inj h).1 (by decide)
  | some id =>
    cases b with
    | none => exact absurd (List.cons.inj h).1 (by decide)
    | some other =>
      simp only [eventIdPreimage, List.cons_append, List.append_assoc] at h
      obtain ⟨hid, hrest⟩ :=
        Bytes.eq_of_append_framed (ha id rfl) (hb other rfl) (List.cons.inj h).2
      exact ⟨congrArg some (Bytes.ofText_injective hid), hrest⟩

/-- What is hashed of two envelopes is the same exactly if their content is. -/
theorem preimage_eq_iff {e f : Envelope} (he : e.IsMeasured) (hf : f.IsMeasured) :
    e.preimage = f.preimage ↔ e.eventId = f.eventId ∧ e.items = f.items := by
  constructor
  · intro h
    obtain ⟨hid, hitems⟩ := eq_of_append_eventIdPreimage he.eventId hf.eventId h
    exact ⟨hid, Item.eq_of_flatMap_preimage he.items hf.items hitems⟩
  · rintro ⟨hid, hitems⟩
    unfold preimage
    rw [hid, hitems]

/-- **Digests stand for content.** Neither the key nor the time of an envelope has a part in what is
hashed, or in the digest. Of two envelopes whose lengths fit, the hashed bytes are the same exactly
if they have the same event id, or both none, and the same items in the same order. So their digests
are the same exactly if their content is, or if two different byte strings have the same hash. -/
theorem digest_eq_iff (e f : Envelope) :
    (∀ key sentAt, Envelope.preimage ⟨key, ⟨e.eventId, sentAt⟩, e.items⟩ = e.preimage ∧
      Envelope.digest ⟨key, ⟨e.eventId, sentAt⟩, e.items⟩ = e.digest) ∧
    (e.IsMeasured → f.IsMeasured →
      (e.preimage = f.preimage ↔ e.eventId = f.eventId ∧ e.items = f.items) ∧
      (e.digest = f.digest ↔ (e.eventId = f.eventId ∧ e.items = f.items) ∨
        (e.preimage ≠ f.preimage ∧ Blake3.hash e.preimage = Blake3.hash f.preimage))) := by
  refine ⟨fun key sentAt => ⟨rfl, rfl⟩, fun he hf => ?_⟩
  have hpreimage := preimage_eq_iff he hf
  refine ⟨hpreimage, ?_⟩
  rw [← hpreimage]
  constructor
  · intro h
    have hhash := Bytes.hex_injective h
    by_cases hsame : e.preimage = f.preimage
    · exact .inl hsame
    · exact .inr ⟨hsame, hhash⟩
  · rintro (hsame | ⟨-, hhash⟩)
    · exact congrArg (fun b => Bytes.hex (Blake3.hash b)) hsame
    · exact congrArg Bytes.hex hhash

/-- An error and a session. -/
def twoItems : Envelope := ⟨"a", ⟨none, none⟩, [⟨.error, []⟩, ⟨.session, [7]⟩]⟩

/-- An error whose payload is what would be hashed of the session. -/
def nestedItem : Envelope := ⟨"b", ⟨none, none⟩, [⟨.error, Item.preimage ⟨.session, [7]⟩⟩]⟩

/-- A payload that looks like a further item is not taken for one. -/
theorem digest_nestedItem : nestedItem.preimage ≠ twoItems.preimage ∧
    (nestedItem.digest = twoItems.digest →
      Blake3.hash nestedItem.preimage = Blake3.hash twoItems.preimage) := by
  have hnested : nestedItem.IsMeasured := ⟨by decide, by decide⟩
  have htwo : twoItems.IsMeasured := ⟨by decide, by decide⟩
  have hitems : nestedItem.items ≠ twoItems.items := by decide
  obtain ⟨hpreimage, hdigest⟩ := (digest_eq_iff nestedItem twoItems).2 hnested htwo
  refine ⟨fun h => hitems (hpreimage.1 h).2, fun h => ?_⟩
  rcases hdigest.1 h with ⟨-, hsame⟩ | ⟨-, hhash⟩
  · exact absurd hsame hitems
  · exact hhash

end Envelope
end Courier
