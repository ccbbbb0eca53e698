import Courier.Proofs.Text.Natural
import Courier.Proofs.Toml.Quoted
import Courier.Toml.Document

/-!
# Values are read back

`Spells written value` says how a value is written before the end of a line. A run of digits is neither a
date nor a time (`dateTime?_append`) and no float (`digitFloat?_toDigits`, `float?_toDigits`), so the
digits of a number spell that number (`spells_digits`). A text is spelled in any notation that is chosen
for it (`spells_quote`).
-/

namespace Courier.Toml

variable {s t rest : List Char} {c mark : Char} {n : Nat}

/-! ## Runs of digits -/

theorem moreDigits_append (hs : ∀ c ∈ s, c.isDigit = true) (rest : List Char) :
    moreDigits Char.isDigit (s ++ '\n' :: rest) = (s, '\n' :: rest) := by
  induction s with
  | nil =>
    rw [List.nil_append, moreDigits]
    · rfl
    · exact fun _ _ h => absurd h (by decide)
  | cons c s ih =>
    have hc := hs c List.mem_cons_self
    rw [List.cons_append, moreDigits]
    · rw [if_pos hc, ih fun d hd => hs d (List.mem_cons_of_mem c hd)]
      rfl
    · exact fun _ _ h => absurd h (Text.ne_of_isDigit hc (by decide))

theorem wholeDigits?_toDigits (n : Nat) (rest : List Char) :
    wholeDigits? (Nat.toDigits 10 n ++ '\n' :: rest) = some (Nat.toDigits 10 n, '\n' :: rest) := by
  have hall : ∀ c ∈ Nat.toDigits 10 n, c.isDigit = true := fun c => Text.isDigit_of_mem_toDigits
  obtain ⟨c, more, he, -, hzero⟩ := Text.exists_toDigits n
  rw [he] at hall ⊢
  by_cases hc : c = '0'
  · subst hc
    rw [hzero rfl]
    rfl
  · rw [List.cons_append, wholeDigits?, digits?, if_pos (hall c List.mem_cons_self),
      moreDigits_append fun d hd => hall d (List.mem_cons_of_mem c hd)]
    · rfl
    · exact fun _ h => hc (List.cons.inj h).1

theorem splitSign_digits (hc : c.isDigit = true) (s : List Char) :
    splitSign (c :: s) = (false, c :: s) := by
  unfold splitSign
  rw [Decimal.splitSign]
  · exact fun _ h => Text.ne_of_isDigit hc (by decide) (List.cons.inj h).1
  · exact fun _ h => Text.ne_of_isDigit hc (by decide) (List.cons.inj h).1

/-! ## Neither a date nor a float -/

/-- What a number of fixed length is read off within a run of digits is followed by another digit, or by
the end of the line. -/
theorem behind?_of_number? {count low high : Nat} (hs : ∀ c ∈ s, c.isDigit = true)
    (hmark : mark.isDigit = false) (hline : mark ≠ '\n')
    (h : number? count low high (s ++ '\n' :: rest) = some (n, t)) : behind? mark t = none := by
  unfold number? at h
  dsimp only at h
  split_ifs at h with hdigits hrange
  obtain ⟨hlength, hall⟩ := hdigits
  obtain rfl : List.drop count (s ++ '\n' :: rest) = t := (Prod.mk.inj (Option.some.inj h)).2
  have hcount : count ≤ s.length := by
    by_contra hlong
    obtain ⟨k, rfl⟩ : ∃ k, count = s.length + (k + 1) := ⟨count - s.length - 1, by omega⟩
    rw [List.take_length_add_append, List.take_succ_cons] at hall
    have hbreak := List.all_eq_true.1 hall '\n' (List.mem_append_right _ List.mem_cons_self)
    exact absurd hbreak (by decide)
  rw [List.drop_append_of_le_length hcount]
  cases hd : s.drop count with
  | nil => exact if_neg hline.symm
  | cons c more =>
    have hc : c ∈ s := List.mem_of_mem_drop (hd ▸ List.mem_cons_self)
    exact if_neg (Text.ne_of_isDigit (hs c hc) hmark)

theorem dateTime?_append (hs : ∀ c ∈ s, c.isDigit = true) (rest : List Char) :
    dateTime? (s ++ '\n' :: rest) = none := by
  have hdate : date? (s ++ '\n' :: rest) = none := by
    unfold date?
    cases h : number? 4 0 9999 (s ++ '\n' :: rest) with
    | none => rfl
    | some read =>
      have hdash : behind? '-' read.2 = none := behind?_of_number? hs (by decide) (by decide) h
      simp [hdash]
  have htime : time? (s ++ '\n' :: rest) = none := by
    unfold time?
    cases h : number? 2 0 23 (s ++ '\n' :: rest) with
    | none => rfl
    | some read =>
      have hcolon : behind? ':' read.2 = none := behind?_of_number? hs (by decide) (by decide) h
      simp [hcolon]
  rw [dateTime?, hdate, htime]

/-- Digits at the end of a line have neither a power of ten nor a fraction. -/
theorem digitFloat?_toDigits (n : Nat) (rest : List Char) :
    digitFloat? (Nat.toDigits 10 n ++ '\n' :: rest) = none := by
  have hwhole := wholeDigits?_toDigits n rest
  obtain ⟨c, more, he, hc, -⟩ := Text.exists_toDigits n
  have hpower : power? ('\n' :: rest) = none := rfl
  have hfraction : fraction? ('\n' :: rest) = none := rfl
  rw [he, List.cons_append] at hwhole ⊢
  unfold digitFloat?
  simp [splitSign_digits hc, hwhole, hpower, hfraction]

theorem float?_toDigits (n : Nat) (rest : List Char) :
    float? (Nat.toDigits 10 n ++ '\n' :: rest) = none := by
  have hdigits := digitFloat?_toDigits n rest
  obtain ⟨c, more, he, hc, -⟩ := Text.exists_toDigits n
  rw [he, List.cons_append] at hdigits ⊢
  unfold float?
  rw [hdigits, splitSign_digits hc]
  split
  · cases ‹none = some _›
  · split
    next h => exact absurd (List.cons.inj (Prod.mk.inj h).2).1 (Text.ne_of_isDigit hc (by decide))
    next h => exact absurd (List.cons.inj (Prod.mk.inj h).2).1 (Text.ne_of_isDigit hc (by decide))
    · rfl

/-! ## Numbers -/

theorem inRange?_natCast (hn : n < integerBound) : inRange? (n : Int) = some (n : Int) :=
  if_pos ⟨by omega, Int.ofNat_lt.2 hn⟩

/-- The digits of a number are read as this number, as far as integers go. -/
theorem integer?_toDigits (hn : n < integerBound) (rest : List Char) :
    integer? (Nat.toDigits 10 n ++ '\n' :: rest) = some ((n : Int), '\n' :: rest) := by
  have hwhole := wholeDigits?_toDigits n rest
  have hvalue := Text.digitsValue_toDigits n
  obtain ⟨c, more, he, hc, hzero⟩ := Text.exists_toDigits n
  have hrange := inRange?_natCast hn
  -- a zero is not the mark of another base, since nothing but the end of the line follows it
  have hbase (mark : Char) (hline : mark ≠ '\n') (u : List Char) :
      c :: (more ++ '\n' :: rest) ≠ '0' :: mark :: u := by
    intro h
    rw [hzero (List.cons.inj h).1] at h
    exact hline (List.cons.inj (List.cons.inj h).2).1.symm
  rw [he] at hwhole hvalue
  rw [List.cons_append] at hwhole
  rw [he, List.cons_append, integer?]
  · rw [splitSign_digits hc]
    dsimp only
    rw [hwhole, Option.bind_eq_bind, Option.bind_some]
    dsimp only
    rw [hvalue, if_neg (by decide), hrange]
    rfl
  · exact fun u => hbase 'x' (by decide) u
  · exact fun u => hbase 'o' (by decide) u
  · exact fun u => hbase 'b' (by decide) u

theorem scalar?_toDigits (hn : n < integerBound) (rest : List Char) :
    scalar? (Nat.toDigits 10 n ++ '\n' :: rest) = some (.integer n, '\n' :: rest) := by
  unfold scalar?
  rw [dateTime?_append (fun c => Text.isDigit_of_mem_toDigits), float?_toDigits,
    integer?_toDigits hn]

/-! ## Values -/

/-- How a value is written before the end of a line. -/
def Spells (written : List Char) (value : Toml) : Prop :=
  ∀ fuel room rest,
    value? (fuel + 1) room (skipBlanks (written ++ '\n' :: rest)) = some (value, '\n' :: rest)

theorem isBlank_eq_false (hspace : c ≠ ' ') (htab : c ≠ '\t') : isBlank c = false := by
  simp [isBlank, hspace, htab]

theorem skipBlanks_cons (hc : isBlank c = false) (s : List Char) : skipBlanks (c :: s) = c :: s :=
  List.dropWhile_cons_of_neg (by rw [hc]; decide)

theorem spells_digits (hn : n < integerBound) : Spells (Nat.toDigits 10 n) (.integer n) := by
  intro fuel room rest
  have hscalar := scalar?_toDigits hn rest
  obtain ⟨c, more, he, hc, -⟩ := Text.exists_toDigits n
  rw [he, List.cons_append] at hscalar ⊢
  have hblank : isBlank c = false := isBlank_eq_false (Text.ne_of_isDigit hc (by decide))
    (Text.ne_of_isDigit hc (by decide))
  rw [skipBlanks_cons hblank, value?, hscalar]
  all_goals
    intro u h
    exact Text.ne_of_isDigit hc (by decide) (List.cons.inj h).1

theorem exists_quote (s : List Char) :
    ∃ c more, quote s = c :: more ∧ (c = '"' ∨ c = '\'') := by
  unfold quote
  cases Notation.of s with
  | basic => exact ⟨'"', _, rfl, .inl rfl⟩
  | literal => exact ⟨'\'', _, rfl, .inr rfl⟩
  | longBasic => exact ⟨'"', _, rfl, .inl rfl⟩
  | longLiteral => exact ⟨'\'', _, rfl, .inr rfl⟩

theorem spells_quote (s : List Char) : Spells (quote s) (.text (String.ofList s)) := by
  intro fuel room rest
  have htext : text? (quote s ++ '\n' :: rest) = some (s, '\n' :: rest) :=
    text?_quote (by simp) (by simp) s
  obtain ⟨c, more, he, hc⟩ := exists_quote s
  rw [he, List.cons_append] at htext ⊢
  rcases hc with rfl | rfl
  all_goals rw [skipBlanks_cons (by decide), value?, htext, Option.map_some]

end Courier.Toml
