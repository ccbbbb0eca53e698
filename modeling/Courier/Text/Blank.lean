/-!
# Blank characters

The characters of the Unicode property `White_Space`, and texts without such characters at their
ends. `Text.trim_eq_nil_iff` says when trimming leaves nothing.
-/

namespace Courier.Text

/-- Whether a character has the property `White_Space`. -/
def isBlank (c : Char) : Bool :=
  let n := c.toNat
  (9 ≤ n && n ≤ 13) || n == 0x20 || n == 0x85 || n == 0xA0 || n == 0x1680 ||
    (0x2000 ≤ n && n ≤ 0x200A) || n == 0x2028 || n == 0x2029 || n == 0x202F || n == 0x205F ||
    n == 0x3000

/-- The text without the blanks at its start. -/
def trimStart (s : List Char) : List Char := s.dropWhile isBlank

/-- The text without the blanks at its end. -/
def trimEnd (s : List Char) : List Char := (s.reverse.dropWhile isBlank).reverse

/-- The text without the blanks at its ends. -/
def trim (s : List Char) : List Char := trimEnd (trimStart s)

@[simp] theorem trim_nil : trim [] = [] := rfl

theorem dropWhile_isBlank_eq_nil {s : List Char} :
    s.dropWhile isBlank = [] ↔ ∀ c ∈ s, isBlank c = true := by
  induction s with
  | nil => simp
  | cons c rest ih => by_cases h : isBlank c = true <;> simp [h, ih]

theorem mem_trimStart_or_blank {s : List Char} {c : Char} (h : c ∈ s) :
    c ∈ trimStart s ∨ isBlank c = true := by
  induction s with
  | nil => simp at h
  | cons d rest ih =>
    by_cases hd : isBlank d = true
    · rcases List.mem_cons.1 h with rfl | h
      · exact .inr hd
      · simpa [trimStart, List.dropWhile_cons, hd] using ih h
    · exact .inl (by simpa [trimStart, List.dropWhile_cons, hd] using h)

/-- Nothing is left by trimming exactly if every character is blank. -/
theorem trim_eq_nil_iff {s : List Char} : trim s = [] ↔ ∀ c ∈ s, isBlank c = true := by
  rw [trim, trimEnd, List.reverse_eq_nil_iff, dropWhile_isBlank_eq_nil]
  constructor
  · intro h c hc
    rcases mem_trimStart_or_blank hc with hc | hc
    · exact h c (List.mem_reverse.2 hc)
    · exact hc
  · intro h c hc
    exact h c ((List.dropWhile_suffix _).subset (List.mem_reverse.1 hc))

end Courier.Text
