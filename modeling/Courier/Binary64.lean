/-!
# Rounding to double precision

A nonnegative double below `2 ^ 53` is a significand of at most 53 bits over a power of two of at
most 1074. `Binary64.ofRatio` is the one nearest to a quotient; a tie goes to the even significand.
`roundHalfEven_bounds` says that rounding moves a quotient by at most one half.
-/

namespace Courier

/-- The whole number nearest to `num / den`; of two equally near ones the even one. -/
def roundHalfEven (num den : Nat) : Nat :=
  let q := num / den
  let r := num % den
  if 2 * r < den then q
  else if den < 2 * r then q + 1
  else q + q % 2

theorem roundHalfEven_bounds {num den : Nat} (h : 0 < den) :
    2 * den * roundHalfEven num den ≤ 2 * num + den ∧
      2 * num ≤ 2 * den * roundHalfEven num den + den := by
  have hr := Nat.mod_lt num h
  have hq := Nat.div_add_mod num den
  have h1 : 2 * den * (num / den) = 2 * (den * (num / den)) := Nat.mul_assoc ..
  have h2 : 2 * den * (num / den + 1) = 2 * (den * (num / den)) + 2 * den := by
    rw [Nat.mul_add, h1, Nat.mul_one]
  have hm : num / den % 2 = 0 ∨ num / den % 2 = 1 := by omega
  simp only [roundHalfEven]
  split
  · omega
  · split
    · omega
    · rcases hm with hm | hm <;> rw [hm]
      · simp only [Nat.add_zero]; omega
      · omega

@[simp] theorem roundHalfEven_mul_left {n den : Nat} (h : 0 < den) :
    roundHalfEven (den * n) den = n := by
  simp [roundHalfEven, h]

/-- The double `significand / 2 ^ scale`. -/
structure Binary64 where
  significand : Nat
  scale : Nat
  deriving DecidableEq, Repr

namespace Binary64

/-- The largest scale of a double. -/
def maxScale : Nat := 1074

/-- The largest scale, up to `scale + more`, at which `num / den` still has at most 53 bits. -/
def scaleFrom (num den : Nat) : (scale more : Nat) → Nat
  | scale, 0 => scale
  | scale, more + 1 =>
    if num * Nat.pow 2 (scale + 1) < Nat.pow 2 53 * den then scaleFrom num den (scale + 1) more else scale

/-- The double nearest to `num / den`, for a quotient below `2 ^ 53`. -/
def ofRatio (num den : Nat) : Binary64 :=
  let scale := scaleFrom num den 0 maxScale
  ⟨roundHalfEven (num * Nat.pow 2 scale) den, scale⟩

/-- The whole number nearest to `unit` times the double. -/
def inUnits (x : Binary64) (unit : Nat) : Nat :=
  roundHalfEven (x.significand * unit) (Nat.pow 2 x.scale)

end Binary64
end Courier
