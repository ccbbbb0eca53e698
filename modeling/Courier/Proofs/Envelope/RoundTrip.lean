import Courier.Envelope.Stored
import Courier.Proofs.Json.Printing

/-!
# Reading back what was stored

Whatever `Envelope.write?` writes, `Stored.read?` reads back: the same key, header and items
(`Stored.read?_of_write?`). `Envelope.resume_read?_write?` says that nothing else is lost: every
envelope is written and read back as it was, unless its time is before the epoch.
-/

namespace Courier

open Json

/-! ## Times -/

theorem Timestamp.seconds_add_subsecond {t : Timestamp} (h : t.isBeforeEpoch = false) :
    (t.seconds : Int) * nanosPerSecond + t.subsecond = t.nanos := by
  have hn : 0 ≤ t.nanos := by simpa [isBeforeEpoch] using h
  have hd : t.seconds * nanosPerSecond + t.subsecond = t.nanos.natAbs := Nat.div_add_mod' _ _
  rw [← Int.natAbs_of_nonneg hn, ← hd, Int.natCast_add, Int.natCast_mul]

theorem Timestamp.seconds_lt {t : Timestamp} (h : t.isBeforeEpoch = false) :
    t.seconds < Text.wordBound := by
  have hn : 0 ≤ t.nanos := by simpa [isBeforeEpoch] using h
  have hu := t.upper
  have hlt : t.nanos.natAbs < nanosPerSecond * secondsBound := by
    rw [Nat.mul_comm]
    omega
  have hs : t.seconds < secondsBound := Nat.div_lt_of_lt_mul hlt
  exact Nat.lt_trans hs (by decide)

/-- A time from the epoch on is written, and read back. -/
theorem Timestamp.exists_toJson? {t : Timestamp} (h : t.isBeforeEpoch = false) :
    ∃ j, t.toJson? = some j ∧ Written j ∧ ofJson? j = some t := by
  have hplain : ArePlain ["secs_since_epoch", "nanos_since_epoch"] := by decide
  refine ⟨_, if_neg (by rw [h]; exact Bool.false_ne_true), ?_, ?_⟩
  · exact Written.record _ [.ofNat t.seconds, .ofNat t.subsecond] hplain (by simp [Written.ofNat])
  · have hr : record? ["secs_since_epoch", "nanos_since_epoch"] false (.object [
          (Bytes.ofText "secs_since_epoch", .ofNat t.seconds),
          (Bytes.ofText "nanos_since_epoch", .ofNat t.subsecond)]) =
        some [("secs_since_epoch", .ofNat t.seconds), ("nanos_since_epoch", .ofNat t.subsecond)] :=
      record?_zip hplain (by decide) [_, _]
    have hsub : t.subsecond < 4294967296 := Nat.lt_trans t.subsecond_lt (by decide)
    unfold ofJson?
    rw [hr]
    show ((nat? Text.wordBound (.ofNat t.seconds)).bind fun seconds =>
      (nat? 4294967296 (.ofNat t.subsecond)).bind fun nanos =>
        ofNanos? (seconds * nanosPerSecond + nanos)) = some t
    rw [nat?_ofNat (seconds_lt h), nat?_ofNat hsub, Option.bind_some, Option.bind_some,
      seconds_add_subsecond h, ofNanos?_nanos]

/-! ## Items -/

theorem payloadOfJson?_map (payload : Bytes) :
    payloadOfJson? (.array (payload.map fun b => .ofNat b.toNat)) = some payload := by
  unfold payloadOfJson?
  induction payload with
  | nil => rfl
  | cons b payload ih =>
    simp only [List.map_cons, List.mapM_cons, nat?_ofNat b.toNat_lt] at ih ⊢
    rw [ih]
    simp

theorem Item.written_toJson (i : Item) : Written i.toJson := by
  have payload : Written (.array (i.payload.map fun b => .ofNat b.toNat)) := by
    refine .array _ fun j hj => ?_
    obtain ⟨b, -, rfl⟩ := List.mem_map.1 hj
    exact .ofNat _
  exact Written.record ["category", "payload"]
    [.ofText i.category.name, .array (i.payload.map fun b => .ofNat b.toNat)] (by decide)
    (by simp [payload, Written.ofText])

theorem Item.ofJson?_toJson (i : Item) : ofJson? i.toJson = some i := by
  have hr : record? ["category", "payload"] true i.toJson = some [
      ("category", .ofText i.category.name),
      ("payload", .array (i.payload.map fun b => .ofNat b.toNat))] :=
    record?_zip (by decide) (by decide) [_, _]
  have hc : Category.ofJson? (.ofText i.category.name) = some i.category := by
    show (text? (escape (Bytes.ofText i.category.name))).bind Category.ofName? = _
    rw [text?_escape, Option.bind_some, Category.ofName?_name]
  unfold ofJson?
  rw [hr]
  simp [List.lookup_cons, hc, payloadOfJson?_map]

theorem Stored.itemsOfJson?_map (items : List Item) :
    itemsOfJson? (.array (items.map Item.toJson)) = some items := by
  unfold itemsOfJson?
  induction items with
  | nil => rfl
  | cons i items ih =>
    simp only [List.map_cons, List.mapM_cons, Item.ofJson?_toJson] at ih ⊢
    rw [ih]
    simp

/-! ## Headers -/

theorem asText?_ofText (s : String) : asText? (.ofText s) = some s := text?_escape s

theorem optionOfJson?_some {α : Type} {ofJson? : Json → Option α} {j : Json} {a : α}
    (hnull : ofJson? .null = none) (h : ofJson? j = some a) :
    optionOfJson? ofJson? (some j) = some (some a) := by
  cases j with
  | null =>
    rw [hnull] at h
    cases h
  | bool | number | string | array | object => exact congrArg (Option.map some) h

/-- A header is read back, if its time can be written. -/
theorem Header.exists_toJson? {h : Header}
    (ht : ∀ t, h.sentAt = some t → t.isBeforeEpoch = false) :
    ∃ j, h.toJson? = some j ∧ Written j ∧ ofJson? j = some h := by
  obtain ⟨eventId, sentAt⟩ := h
  obtain ⟨id, hid, hwid, hrid⟩ : ∃ j, optionToJson? (fun id => some (.ofText id)) eventId = some j ∧
      Written j ∧ optionOfJson? asText? (some j) = some eventId := by
    cases eventId with
    | none => exact ⟨.null, rfl, .null, rfl⟩
    | some s => exact ⟨.ofText s, rfl, .ofText s, optionOfJson?_some rfl (asText?_ofText s)⟩
  obtain ⟨time, htime, hwtime, hrtime⟩ : ∃ j, optionToJson? Timestamp.toJson? sentAt = some j ∧
      Written j ∧ optionOfJson? Timestamp.ofJson? (some j) = some sentAt := by
    cases sentAt with
    | none => exact ⟨.null, rfl, .null, rfl⟩
    | some t =>
      obtain ⟨j, hj, hw, hr⟩ := Timestamp.exists_toJson? (ht t rfl)
      exact ⟨j, hj, hw, optionOfJson?_some rfl hr⟩
  have hr : record? ["event_id", "sent_at"] true (.object [
        (Bytes.ofText "event_id", id), (Bytes.ofText "sent_at", time)]) =
      some [("event_id", id), ("sent_at", time)] :=
    record?_zip (by decide) (by decide) [_, _]
  refine ⟨.object [(Bytes.ofText "event_id", id), (Bytes.ofText "sent_at", time)], ?_, ?_, ?_⟩
  · unfold toJson?
    simp only [hid, htime]
    rfl
  · exact Written.record ["event_id", "sent_at"] [id, time] (by decide) (by simp [hwid, hwtime])
  · unfold ofJson?
    rw [hr]
    simp [List.lookup_cons, hrid, hrtime]

/-! ## Envelopes -/

theorem written_items (items : List Item) : Written (.array (items.map Item.toJson)) := by
  refine .array _ fun j hj => ?_
  obtain ⟨i, -, rfl⟩ := List.mem_map.1 hj
  exact i.written_toJson

/-- The form of an envelope whose time can be written gives all of it. -/
theorem Envelope.exists_toJson? {e : Envelope}
    (ht : ∀ t, e.header.sentAt = some t → t.isBeforeEpoch = false) :
    ∃ j, e.toJson? = some j ∧ Written j ∧
      Stored.ofJson? j = some ⟨some e.key, e.header, e.items⟩ := by
  obtain ⟨header, hheader, hwritten, hread⟩ := Header.exists_toJson? ht
  let items := Json.array (e.items.map Item.toJson)
  have hkey : Stored.keyOfJson? (some (.ofText e.key)) = some (some e.key) :=
    congrArg (Option.map some) (asText?_ofText e.key)
  have hitems : Stored.itemsOfJson? items = some e.items := Stored.itemsOfJson?_map e.items
  have hr : record? ["key", "header", "items"] true (.object [
        (Bytes.ofText "key", .ofText e.key), (Bytes.ofText "header", header),
        (Bytes.ofText "items", items)]) =
      some [("key", .ofText e.key), ("header", header), ("items", items)] :=
    record?_zip (by decide) (by decide) [_, _, _]
  refine ⟨.object [(Bytes.ofText "key", .ofText e.key), (Bytes.ofText "header", header),
    (Bytes.ofText "items", items)], ?_, ?_, ?_⟩
  · unfold toJson?
    rw [hheader]
    rfl
  · exact Written.record ["key", "header", "items"] [.ofText e.key, header, items] (by decide)
      (by simp [items, Written.ofText, hwritten, written_items])
  · unfold Stored.ofJson?
    rw [hr]
    simp [List.lookup_cons, hkey, hread, hitems]

theorem Envelope.exists_write? {e : Envelope}
    (ht : ∀ t, e.header.sentAt = some t → t.isBeforeEpoch = false) :
    ∃ bytes, e.write? = some bytes := by
  obtain ⟨j, hj, -, -⟩ := exists_toJson? ht
  exact ⟨j.print, by rw [write?, hj, Option.map_some]⟩

theorem Stored.read?_of_write? {e : Envelope} {bytes : Bytes} (h : e.write? = some bytes) :
    read? bytes = some ⟨some e.key, e.header, e.items⟩ := by
  have ht (t) (hs : e.header.sentAt = some t) : t.isBeforeEpoch = false := by
    by_contra hb
    have hn := Envelope.write?_eq_none_iff.2 ⟨t, hs, by simpa using hb⟩
    rw [hn] at h
    cases h
  obtain ⟨j, hj, hw, hread⟩ := Envelope.exists_toJson? ht
  unfold Envelope.write? at h
  rw [hj] at h
  obtain rfl := Option.some.inj h
  unfold read?
  rw [parse?_print hw, Option.bind_some, hread]

/-- **Stored envelopes come back as they were.** Every envelope is written, unless it has a time and
that is before the epoch. What is written is the JSON text of the envelope's form, and it is read
back as the same envelope: the key, the header with its time to the nanosecond, and all items in
their order. No fresh key is used up. -/
theorem Envelope.resume_read?_write? (e : Envelope) :
    (e.write? = none ↔ ∃ t, e.header.sentAt = some t ∧ t.isBeforeEpoch = true) ∧
    ((∀ t, e.header.sentAt = some t → t.isBeforeEpoch = false) →
      ∃ bytes, e.write? = some bytes ∧ parse? bytes = e.toJson? ∧
        ∀ source, (Stored.read? bytes).map (Stored.resume source) = some (e, source)) := by
  refine ⟨write?_eq_none_iff, fun ht => ?_⟩
  obtain ⟨j, hj, hw, -⟩ := exists_toJson? ht
  have hwrite : e.write? = some j.print := by rw [write?, hj, Option.map_some]
  refine ⟨j.print, hwrite, (parse?_print hw).trans hj.symm, fun source => ?_⟩
  rw [Stored.read?_of_write? hwrite, Option.map_some]
  rfl

/-- An envelope with quotes, a backslash, control characters and a letter beyond ASCII. -/
def quotedEnvelope : Envelope :=
  ⟨"a\"b\\c", ⟨some "\u0001\n/é", Timestamp.ofNanos? 1500000000123456789⟩,
    [⟨.error, [0, 34, 255]⟩, ⟨.session, []⟩]⟩

/-- It is written under escapes, and read back. -/
theorem read?_quotedEnvelope :
    ∃ bytes, Bytes.text? bytes = some ("\x7b\"key\":\"a\\\"b\\\\c\",\"header\":\x7b" ++
        "\"event_id\":\"\\u0001\\n/é\",\"sent_at\":\x7b\"secs_since_epoch\":1500000000," ++
        "\"nanos_since_epoch\":123456789\x7d\x7d,\"items\":[" ++
        "\x7b\"category\":\"error\",\"payload\":[0,34,255]\x7d," ++
        "\x7b\"category\":\"session\",\"payload\":[]\x7d]\x7d") ∧
      ∀ source, (Stored.read? bytes).map (Stored.resume source) = some (quotedEnvelope, source) := by
  obtain ⟨bytes, hwrite, -, hread⟩ := (Envelope.resume_read?_write? quotedEnvelope).2 (by decide)
  refine ⟨bytes, ?_, hread⟩
  rw [← Option.bind_some (f := Bytes.text?), ← hwrite]
  decide +kernel

end Courier
