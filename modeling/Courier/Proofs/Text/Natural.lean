import Courier.Text.Natural
import Mathlib.Tactic.Ring

/-!
# What a run of digits states

The value of a run of digits is the library's `Nat.ofDigitChars`. `exists_toDigits` says how the digits
of a number begin, `word?_eq_some_iff` which texts state a 64-bit word, and which one.
-/

namespace Courier.Text

variable {s digits : List Char} {n start : Nat}

theorem digitsValue_eq_ofDigitChars (start : Nat) (s : List Char) :
    digitsValue start s = Nat.ofDigitChars 10 s start := rfl

theorem digitsValue_eq_add (start : Nat) (s : List Char) :
    digitsValue start s = start * 10 ^ s.length + digitsValue 0 s := by
  simp only [digitsValue_eq_ofDigitChars]
  rw [Nat.ofDigitChars_eq_ofDigitChars_zero, Nat.mul_comm]

theorem digitsValue_toDigits (n : Nat) : digitsValue 0 (Nat.toDigits 10 n) = n :=
  Nat.ofDigitChars_ten_toDigits

theorem isDigit_of_mem_toDigits {c : Char} (h : c ∈ Nat.toDigits 10 n) : c.isDigit = true :=
  Nat.isDigit_of_mem_toDigits (by decide) (by decide) h

theorem exists_toDigits_of_pos (hn : 0 < n) :
    ∃ d more, 0 < d ∧ d < 10 ∧ Nat.toDigits 10 n = Nat.digitChar d :: more := by
  induction n using Nat.strongRecOn with
  | _ n ih =>
    by_cases h : n < 10
    · exact ⟨n, [], hn, h, Nat.toDigits_of_lt_base h⟩
    · obtain ⟨d, more, hd, hlt, he⟩ := ih (n / 10) (by omega) (by omega)
      refine ⟨d, more ++ [Nat.digitChar (n % 10)], hd, hlt, ?_⟩
      rw [Nat.toDigits_of_base_le (by decide) (by omega), he]
      rfl

/-- The digits of a number begin with a digit, and no zero stands before another one. -/
theorem exists_toDigits (n : Nat) : ∃ c more, Nat.toDigits 10 n = c :: more ∧ c.isDigit = true ∧
    (c = '0' → more = []) := by
  have first {c : Char} {more : List Char} (h : Nat.toDigits 10 n = c :: more) : c.isDigit = true :=
    isDigit_of_mem_toDigits (n := n) (h ▸ List.mem_cons_self)
  rcases Nat.eq_zero_or_pos n with rfl | hn
  · exact ⟨'0', [], rfl, by decide, fun _ => rfl⟩
  · obtain ⟨d, more, hd, hlt, he⟩ := exists_toDigits_of_pos hn
    have hdigit : ∀ d < 10, 0 < d → Nat.digitChar d ≠ '0' := by decide
    exact ⟨_, more, he, first he, fun h => absurd h (hdigit d hlt hd)⟩

theorem natural?_eq_some_iff : natural? s = some n ↔
    s ≠ [] ∧ (∀ c ∈ s, c.isDigit = true) ∧ digitsValue 0 s = n := by
  unfold natural?
  constructor
  · intro h
    split at h
    next hs => exact ⟨hs.1, List.all_eq_true.1 hs.2, Option.some.inj h⟩
    next => cases h
  · rintro ⟨hne, hall, hn⟩
    rw [if_pos ⟨hne, List.all_eq_true.2 hall⟩, hn]

theorem ne_of_isDigit {c d : Char} (h : c.isDigit = true) (hd : d.isDigit = false) : c ≠ d := by
  rintro rfl
  rw [h] at hd
  cases hd

/-- A text states a 64-bit word: it has digits after an optional plus sign, and nothing else, and their
value is in range. -/
def StatesWord (s : List Char) (n : Nat) : Prop :=
  ∃ digits, (s = digits ∨ s = '+' :: digits) ∧ digits ≠ [] ∧ (∀ c ∈ digits, c.isDigit = true) ∧
    digitsValue 0 digits = n ∧ n < wordBound

theorem withoutPlus_of_isDigit (h : ∀ c ∈ s, c.isDigit = true) : withoutPlus s = s := by
  unfold withoutPlus
  split
  next rest =>
    exact absurd rfl (ne_of_isDigit (h '+' List.mem_cons_self) (d := '+') (by decide))
  next => rfl

theorem eq_withoutPlus_or (s : List Char) : s = withoutPlus s ∨ s = '+' :: withoutPlus s := by
  unfold withoutPlus
  split
  · exact .inr rfl
  · exact .inl rfl

/-- The texts that are read as a word are those that state one. -/
theorem word?_eq_some_iff : word? s = some n ↔ StatesWord s n := by
  unfold word? StatesWord
  rw [Option.filter_eq_some_iff, natural?_eq_some_iff]
  constructor
  · rintro ⟨⟨hne, hall, hn⟩, hlt⟩
    exact ⟨withoutPlus s, eq_withoutPlus_or s, hne, hall, hn, by simpa using hlt⟩
  · rintro ⟨digits, hs, hne, hall, hn, hlt⟩
    have hdigits : withoutPlus s = digits := by
      rcases hs with rfl | rfl
      · exact withoutPlus_of_isDigit hall
      · rfl
    rw [hdigits]
    exact ⟨⟨hne, hall, hn⟩, by simpa using hlt⟩

end Courier.Text
