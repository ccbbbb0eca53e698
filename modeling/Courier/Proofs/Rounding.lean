import Courier.Binary64
import Mathlib.Tactic.Ring

/-!
# What rounding to a double loses

A ratio that is a whole number of units is rounded to a double and then to a whole number of units
again. If the double has more than `unit` steps in one, that number is found again
(`Binary64.inUnits_ofRatio`). A double is not above a whole number that the ratio is not above
(`Binary64.significand_ofRatio_le`).
-/

namespace Courier

variable {num den n : Nat}

/-- The whole number within less than one half of a quotient is what the quotient rounds to. -/
theorem roundHalfEven_eq_of_near (h : 0 < den) (hlow : 2 * den * n < 2 * num + den)
    (hhigh : 2 * num < 2 * den * n + den) : roundHalfEven num den = n := by
  obtain ⟨hle, hge⟩ := @roundHalfEven_bounds num den h
  have hden : 0 < 2 * den := by omega
  have hbelow : roundHalfEven num den < n + 1 := by
    refine Nat.lt_of_mul_lt_mul_left (a := 2 * den) ?_
    rw [Nat.mul_add, Nat.mul_one]
    omega
  have habove : n < roundHalfEven num den + 1 := by
    refine Nat.lt_of_mul_lt_mul_left (a := 2 * den) ?_
    rw [Nat.mul_add, Nat.mul_one]
    omega
  omega

namespace Binary64

variable {t unit bound : Nat}

theorem le_scaleFrom {scale more : Nat} (h : num * 2 ^ t < 2 ^ 53 * den) (ht : t ≤ scale + more) :
    t ≤ scaleFrom num den scale more := by
  induction more generalizing scale with
  | zero => exact ht
  | succ more ih =>
    simp only [scaleFrom, Nat.pow_eq]
    split
    · exact ih (by omega)
    next hmore =>
      by_contra hlt
      have hpow : num * 2 ^ (scale + 1) ≤ num * 2 ^ t :=
        Nat.mul_le_mul_left num (Nat.pow_le_pow_right (by decide) (by omega))
      omega

/-- Whole numbers of units come back from a double, if it is fine enough for them. -/
theorem inUnits_ofRatio (hden : 0 < den) (hn : num * unit = n * den) (hunit : unit < 2 ^ t)
    (ht : t ≤ maxScale) (hfine : num * 2 ^ t < 2 ^ 53 * den) :
    (ofRatio num den).inUnits unit = n := by
  have hscale : t ≤ scaleFrom num den 0 maxScale := le_scaleFrom hfine (by omega)
  generalize hs : scaleFrom num den 0 maxScale = s at hscale
  have hsteps : unit < 2 ^ s :=
    Nat.lt_of_lt_of_le hunit (Nat.pow_le_pow_right (by decide) hscale)
  obtain ⟨hle, hge⟩ := @roundHalfEven_bounds (num * 2 ^ s) den hden
  unfold inUnits ofRatio
  simp only [hs, Nat.pow_eq]
  generalize roundHalfEven (num * 2 ^ s) den = m at hle hge
  -- Both bounds are compared after multiplication by the denominator of the ratio.
  have hexact : den * (2 * 2 ^ s * n) = 2 * (num * 2 ^ s) * unit := by
    calc den * (2 * 2 ^ s * n) = 2 * 2 ^ s * (n * den) := by ring
      _ = 2 * (num * 2 ^ s) * unit := by rw [← hn]; ring
  have hwidth : den * unit < den * 2 ^ s := Nat.mul_lt_mul_of_pos_left hsteps hden
  refine roundHalfEven_eq_of_near (Nat.two_pow_pos s) ?_ ?_
  · refine Nat.lt_of_mul_lt_mul_left (a := den) ?_
    calc den * (2 * 2 ^ s * n) = 2 * (num * 2 ^ s) * unit := hexact
      _ ≤ (2 * den * m + den) * unit := Nat.mul_le_mul_right unit hge
      _ = den * (2 * (m * unit)) + den * unit := by ring
      _ < den * (2 * (m * unit)) + den * 2 ^ s := Nat.add_lt_add_left hwidth _
      _ = den * (2 * (m * unit) + 2 ^ s) := by ring
  · refine Nat.lt_of_mul_lt_mul_left (a := den) ?_
    calc den * (2 * (m * unit)) = 2 * den * m * unit := by ring
      _ ≤ (2 * (num * 2 ^ s) + den) * unit := Nat.mul_le_mul_right unit hle
      _ = den * (2 * 2 ^ s * n) + den * unit := by rw [Nat.add_mul, hexact]
      _ < den * (2 * 2 ^ s * n) + den * 2 ^ s := Nat.add_lt_add_left hwidth _
      _ = den * (2 * 2 ^ s * n + 2 ^ s) := by ring

theorem significand_ofRatio_le (hden : 0 < den) (h : num ≤ bound * den) :
    (ofRatio num den).significand ≤ bound * 2 ^ (ofRatio num den).scale := by
  unfold ofRatio
  simp only [Nat.pow_eq]
  generalize scaleFrom num den 0 maxScale = s
  obtain ⟨hle, -⟩ := @roundHalfEven_bounds (num * 2 ^ s) den hden
  refine Nat.le_of_lt_succ (Nat.lt_of_mul_lt_mul_left (a := 2 * den) ?_)
  calc 2 * den * roundHalfEven (num * 2 ^ s) den ≤ 2 * (num * 2 ^ s) + den := hle
    _ ≤ 2 * (bound * den * 2 ^ s) + den := by
        have hscaled := Nat.mul_le_mul_right (2 ^ s) h
        omega
    _ = 2 * den * (bound * 2 ^ s) + den := by ring
    _ < 2 * den * (bound * 2 ^ s) + 2 * den := by omega
    _ = 2 * den * (bound * 2 ^ s).succ := by rw [Nat.succ_eq_add_one]; ring

end Binary64
end Courier
