import Courier.Proofs.Rounding
import Courier.Proofs.Text.Natural
import Courier.Proofs.Text.Trim
import Courier.Seconds

/-!
# How exactly seconds are read

`Seconds.Written` is a number of seconds as it can be written out in digits, with at most nine of them
behind the point. The double next to such a number is near enough to it that its nanoseconds are those
that were written (`Written.exists_belowDay?`). `nanos?_written` says what is read from such texts, and
that no text at all leads out of the range of durations.
-/

namespace Courier

open Text

/-! ## Literals -/

namespace Decimal

variable {digits rest : List Char}

theorem splitDigits_append (hd : ∀ c ∈ digits, c.isDigit = true)
    (hr : ∀ c ∈ rest.head?, c.isDigit = false) : splitDigits (digits ++ rest) = (digits, rest) := by
  unfold splitDigits
  rw [List.takeWhile_append_of_pos hd, List.dropWhile_append_of_pos hd]
  cases rest with
  | nil => simp
  | cons c rest => simp [hr c rfl]

end Decimal

namespace Seconds

/-- A number of seconds that is written out: blanks, digits, perhaps a point with up to nine digits
behind it, and blanks. -/
structure Written where
  before : List Char
  whole : List Char
  fraction : Option (List Char)
  behind : List Char
  isBlank_before : IsBlank before
  whole_ne_nil : whole ≠ []
  isDigit_whole : ∀ c ∈ whole, c.isDigit = true
  isDigit_fraction : ∀ c ∈ fraction.getD [], c.isDigit = true
  length_fraction : (fraction.getD []).length ≤ 9
  isBlank_behind : IsBlank behind

namespace Written

/-- The digits behind the point. -/
def decimals (w : Written) : List Char := w.fraction.getD []

/-- The digits with the point between them. -/
def body (w : Written) : List Char :=
  w.whole ++ match w.fraction with
    | none => []
    | some digits => '.' :: digits

/-- The whole text, with a sign before the digits. -/
def text (w : Written) (sign : List Char) : List Char := w.before ++ (sign ++ w.body) ++ w.behind

/-- The value that is written, in nanoseconds. -/
def nanos (w : Written) : Nat :=
  digitsValue 0 w.whole * nanosPerSecond + digitsValue 0 w.decimals * 10 ^ (9 - w.decimals.length)

/-- The value that is written, as a decimal. -/
def decimal (w : Written) : Decimal :=
  ⟨digitsValue 0 (w.whole ++ w.decimals), -(w.decimals.length : Int)⟩

variable (w : Written)

/-! ## Reading the digits -/

theorem length_decimals : w.decimals.length ≤ 9 := w.length_fraction

/-- The parts of a second that the last digit counts, and the nanoseconds of each of them. -/
theorem pow_mul_pow : 10 ^ w.decimals.length * 10 ^ (9 - w.decimals.length) = nanosPerSecond := by
  rw [← Nat.pow_add, Nat.add_sub_cancel' w.length_decimals]

/-- The digits of both parts make one number, of which the point decides the unit. -/
theorem nanos_eq : w.nanos = w.decimal.mantissa * 10 ^ (9 - w.decimals.length) := by
  have hvalue : w.decimal.mantissa =
      digitsValue 0 w.whole * 10 ^ w.decimals.length + digitsValue 0 w.decimals := by
    show digitsValue 0 (w.whole ++ w.decimals) = _
    rw [digitsValue_append, digitsValue_eq_add]
  rw [hvalue, Nat.add_mul, Nat.mul_assoc, pow_mul_pow]
  rfl

theorem unsigned?_body : Decimal.unsigned? w.body = some w.decimal := by
  obtain ⟨before, whole, fraction, behind, -, hne, hwhole, hfraction, -, -⟩ := w
  unfold body decimal decimals Decimal.unsigned?
  cases fraction with
  | none =>
    have hsplit : Decimal.splitDigits (whole ++ []) = (whole, []) :=
      Decimal.splitDigits_append hwhole (by simp)
    rw [List.append_nil] at hsplit
    simp [hsplit, hne, Decimal.power?]
  | some digits =>
    have hsplit : Decimal.splitDigits (whole ++ '.' :: digits) = (whole, '.' :: digits) :=
      Decimal.splitDigits_append hwhole (by simp)
    have hrest : Decimal.splitDigits (digits ++ []) = (digits, []) :=
      Decimal.splitDigits_append hfraction (by simp)
    rw [List.append_nil] at hrest
    simp [hsplit, hrest, hne, Decimal.power?]

theorem isBlank_of_isDigit {c : Char} (h : c.isDigit = true) : isBlank c = false := by
  have hc : 48 ≤ c.toNat ∧ c.toNat ≤ 57 := by
    simpa [Char.isDigit, UInt32.le_iff_toNat_le] using h
  unfold isBlank
  simp
  omega

theorem isBlank_of_mem_body {c : Char} (h : c ∈ w.body) : isBlank c = false := by
  have hmem : c ∈ w.whole ∨ c = '.' ∨ c ∈ w.decimals := by
    unfold body at h
    unfold decimals
    cases hf : w.fraction with
    | none =>
      rw [hf, List.append_nil] at h
      exact .inl h
    | some digits => simpa [hf] using h
  rcases hmem with hc | rfl | hc
  · exact isBlank_of_isDigit (w.isDigit_whole c hc)
  · decide
  · exact isBlank_of_isDigit (w.isDigit_fraction c hc)

theorem exists_body : ∃ c rest, w.body = c :: rest ∧ c.isDigit = true := by
  obtain ⟨c, rest, hwhole⟩ := List.exists_cons_of_ne_nil w.whole_ne_nil
  have hc : c.isDigit = true := w.isDigit_whole c (by rw [hwhole]; exact List.mem_cons_self)
  unfold body
  rw [hwhole, List.cons_append]
  exact ⟨c, _, rfl, hc⟩

theorem splitSign_body : Decimal.splitSign w.body = (false, w.body) := by
  obtain ⟨c, rest, hbody, hc⟩ := w.exists_body
  rw [hbody]
  unfold Decimal.splitSign
  split
  next h => exact absurd (List.cons.inj h).1 (ne_of_isDigit hc (by decide))
  next h => exact absurd (List.cons.inj h).1 (ne_of_isDigit hc (by decide))
  next => rfl

/-- Blanks around the digits and their sign do not matter. -/
theorem literal?_text {sign : List Char} {negative : Bool}
    (hsign : ∀ c ∈ sign, isBlank c = false)
    (hsplit : Decimal.splitSign (sign ++ w.body) = (negative, w.body)) :
    Decimal.literal? (trim (w.text sign)) = some (.number negative w.decimal) := by
  have hsolid : ∀ c ∈ sign ++ w.body, isBlank c = false :=
    List.forall_mem_append.2 ⟨hsign, fun c hc => w.isBlank_of_mem_body hc⟩
  unfold text Decimal.literal?
  rw [trim_append_append w.isBlank_before _ w.isBlank_behind, trim_eq_self hsolid, hsplit]
  simp only [unsigned?_body]

/-! ## The double next to what is written -/

theorem numerator_decimal : w.decimal.numerator = w.decimal.mantissa := by
  have hexponent : (-(w.decimals.length : Int)).toNat = 0 := by omega
  show w.decimal.mantissa * Nat.pow 10 (-(w.decimals.length : Int)).toNat = _
  rw [hexponent]
  exact Nat.mul_one _

theorem denominator_decimal : w.decimal.denominator = 10 ^ w.decimals.length := by
  have hexponent : (- -(w.decimals.length : Int)).toNat = w.decimals.length := by omega
  show Nat.pow 10 (- -(w.decimals.length : Int)).toNat = _
  rw [hexponent]
  rfl

/-- Less than a day is written exactly if the nanoseconds say so. -/
theorem dayNanos_le_iff :
    dayNanos ≤ w.nanos ↔ day * 10 ^ w.decimals.length ≤ w.decimal.mantissa := by
  have hpos : 0 < 10 ^ (9 - w.decimals.length) := Nat.pow_pos (by decide)
  have hday : dayNanos = day * 10 ^ w.decimals.length * 10 ^ (9 - w.decimals.length) :=
    calc dayNanos = day * nanosPerSecond := rfl
      _ = _ := by rw [Nat.mul_assoc, w.pow_mul_pow]
  rw [nanos_eq, hday]
  exact Nat.mul_le_mul_right_iff hpos

theorem not_isBelow : w.decimal.isBelow (-400) = false := by
  have hlength := w.length_decimals
  refine decide_eq_false fun h => ?_
  have hexponent : w.decimal.exponent = -(w.decimals.length : Int) := rfl
  omega

theorem belowDay?_eq_none (h : dayNanos ≤ w.nanos) : belowDay? w.decimal = none := by
  have hle := w.dayNanos_le_iff.1 h
  have hday : 0 < day * 10 ^ w.decimals.length :=
    Nat.mul_pos (by decide) (Nat.pow_pos (by decide))
  have hmantissa : w.decimal.mantissa ≠ 0 := by omega
  have hexponent : ¬ 7 ≤ w.decimal.exponent := by
    show ¬ 7 ≤ -(w.decimals.length : Int)
    omega
  unfold belowDay?
  rw [numerator_decimal, denominator_decimal, if_neg (by simp [hmantissa, not_isBelow]),
    if_neg hexponent, if_pos hle]

/-- The double next to less than a day still has the nanoseconds that are written. -/
theorem exists_belowDay? (h : w.nanos < dayNanos) :
    ∃ x, belowDay? w.decimal = some x ∧ x.inUnits nanosPerSecond = w.nanos := by
  by_cases hmantissa : w.decimal.mantissa = 0
  · refine ⟨⟨0, 0⟩, by simp [belowDay?, hmantissa], ?_⟩
    rw [nanos_eq, hmantissa, Nat.zero_mul]
    rfl
  · have hlt : w.decimal.mantissa < day * 10 ^ w.decimals.length :=
      Nat.lt_of_not_le fun hle => absurd (w.dayNanos_le_iff.2 hle) (Nat.not_le.2 h)
    have hexponent : ¬ 7 ≤ w.decimal.exponent := by
      show ¬ 7 ≤ -(w.decimals.length : Int)
      omega
    refine ⟨Binary64.ofRatio w.decimal.mantissa (10 ^ w.decimals.length), ?_, ?_⟩
    · unfold belowDay?
      rw [numerator_decimal, denominator_decimal, if_neg (by simp [hmantissa, not_isBelow]),
        if_neg hexponent, if_neg (Nat.not_le.2 hlt)]
    · -- A day has less than 17 bits, so a double leaves more than 30 bits for the parts of a second.
      refine Binary64.inUnits_ofRatio (t := 30) (Nat.pow_pos (by decide)) ?_ (by decide)
        (by decide) ?_
      · rw [nanos_eq, Nat.mul_assoc, Nat.mul_comm (10 ^ (9 - w.decimals.length)), pow_mul_pow]
      · calc w.decimal.mantissa * 2 ^ 30 < day * 10 ^ w.decimals.length * 2 ^ 30 :=
              Nat.mul_lt_mul_of_pos_right hlt (by decide)
          _ = day * 2 ^ 30 * 10 ^ w.decimals.length := Nat.mul_right_comm ..
          _ ≤ 2 ^ 53 * 10 ^ w.decimals.length := Nat.mul_le_mul_right _ (by decide)

end Written

/-! ## What is converted -/

/-- No double that is converted to nanoseconds is above a day. -/
theorem significand_le_of_belowDay? {d : Decimal} {x : Binary64} (h : belowDay? d = some x) :
    x.significand ≤ day * 2 ^ x.scale := by
  unfold belowDay? at h
  split_ifs at h with hzero hlarge hday
  · obtain rfl := Option.some.inj h
    exact Nat.zero_le _
  · obtain rfl := Option.some.inj h
    exact Binary64.significand_ofRatio_le d.denominator_pos (Nat.le_of_not_le hday)

/-- **Seconds are read exactly and safely.** Of a text that writes out a number of seconds with at most
nine digits behind the point, whatever its length, the nanoseconds are read that it states, up to those
of a day; with a minus sign before it nothing is read, unless it states zero. No text whatsoever is
read as more than a day, and each number that is converted to nanoseconds on the way is in range: it is
not negative and not above a day. -/
theorem nanos?_written :
    (∀ (w : Written) (sign : List Char), sign = [] ∨ sign = ['+'] →
      nanos? (w.text sign) = some (min w.nanos dayNanos)) ∧
    (∀ w : Written, w.nanos ≠ 0 → nanos? (w.text ['-']) = none) ∧
    (∀ s n, nanos? s = some n → n ≤ dayNanos) ∧
    ∀ d x, belowDay? d = some x → x.significand ≤ day * 2 ^ x.scale := by
  refine ⟨fun w sign hsign => ?_, fun w hw => ?_, fun s n => nanos?_le,
    fun d x => significand_le_of_belowDay?⟩
  · have hliteral : Decimal.literal? (trim (w.text sign)) = some (.number false w.decimal) := by
      rcases hsign with rfl | rfl
      · exact w.literal?_text (by simp) w.splitSign_body
      · exact w.literal?_text (List.forall_mem_singleton.2 (by decide)) rfl
    unfold nanos?
    rw [hliteral, Option.bind_some]
    rcases Nat.lt_or_ge w.nanos dayNanos with hlt | hge
    · obtain ⟨x, hx, hnanos⟩ := w.exists_belowDay? hlt
      simp [ofLiteral?, hx, hnanos]
    · simp [ofLiteral?, w.belowDay?_eq_none hge, Nat.min_eq_right hge]
  · have hliteral : Decimal.literal? (trim (w.text ['-'])) = some (.number true w.decimal) :=
      w.literal?_text (List.forall_mem_singleton.2 (by decide)) rfl
    unfold nanos?
    rw [hliteral, Option.bind_some]
    rcases Nat.lt_or_ge w.nanos dayNanos with hlt | hge
    · obtain ⟨x, hx, hnanos⟩ := w.exists_belowDay? hlt
      have hsignificand : x.significand ≠ 0 := by
        intro hzero
        rw [Binary64.inUnits, hzero, Nat.zero_mul] at hnanos
        exact hw (hnanos.symm.trans (roundHalfEven_mul_left (n := 0) (Nat.two_pow_pos _)))
      simp [ofLiteral?, hx, hsignificand]
    · simp [ofLiteral?, w.belowDay?_eq_none hge]

/-- A nanosecond less than two and a half seconds, with blanks around it. -/
def sampleWritten : Written where
  before := ['\t']
  whole := ['0', '2']
  fraction := some ['4', '9', '9', '9', '9', '9', '9', '9', '9']
  behind := [' ', '\u3000']
  isBlank_before := by decide
  whole_ne_nil := by decide
  isDigit_whole := List.all_eq_true.1 (by decide)
  isDigit_fraction := List.all_eq_true.1 (by decide)
  length_fraction := by decide
  isBlank_behind := by decide

/-- It is read with a plus sign, and refused with a minus sign. -/
theorem nanos?_sampleWritten :
    nanos? "\t+02.499999999 \u3000".toList = some 2499999999 ∧
      nanos? "\t-02.499999999 \u3000".toList = none := by
  have hplus : "\t+02.499999999 \u3000".toList = sampleWritten.text ['+'] := by decide
  have hminus : "\t-02.499999999 \u3000".toList = sampleWritten.text ['-'] := by decide
  have hnanos : sampleWritten.nanos = 2499999999 := by decide
  obtain ⟨hread, hrefused, -⟩ := nanos?_written
  refine ⟨?_, ?_⟩
  · rw [hplus, hread sampleWritten ['+'] (.inr rfl), hnanos]
    decide
  · rw [hminus]
    exact hrefused sampleWritten (by rw [hnanos]; decide)

end Seconds
end Courier
