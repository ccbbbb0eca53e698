import Courier.Json.Parser
import Courier.Proofs.Text.Natural
import Mathlib.Data.List.Basic
import Mathlib.Tactic.SplitIfs

/-!
# Literals that were written

What `Json.escape` writes is cut out up to its closing quote (`stringBody?_escape`) and read back as the
text that it was (`text?_escape`). What `Json.natLiteral` writes is cut out where no digit follows
(`number?_natLiteral`) and read back as the number that it was (`nat?_ofNat`).
-/

namespace Courier.Json

/-! ## Escaped bytes -/

theorem pieces?_of_ne {b : UInt8} (h : b ≠ ascii '\\') (rest : Bytes) :
    pieces? (b :: rest) = (pieces? rest).map (.byte b :: ·) := by
  rw [pieces?.eq_def]
  simp [h]

theorem pieces?_letter {letter b : UInt8} (hu : letter ≠ ascii 'u') (h : unescape? letter = some b)
    (rest : Bytes) :
    pieces? (ascii '\\' :: letter :: rest) = (pieces? rest).map (.byte b :: ·) := by
  rw [pieces?.eq_def]
  simp [hu, h]

theorem pieces?_unit {a b c d : UInt8} {n : Nat} (h : unit? a b c d = some n) (rest : Bytes) :
    pieces? (ascii '\\' :: ascii 'u' :: a :: b :: c :: d :: rest) =
      (pieces? rest).map (.unit n :: ·) := by
  rw [pieces?.eq_def]
  simp [h]

theorem stringBody?_quote (rest : Bytes) : stringBody? (ascii '"' :: rest) = some ([], rest) := by
  rw [stringBody?.eq_def]
  simp

theorem stringBody?_of_ne {b : UInt8} (hq : b ≠ ascii '"') (hs : b ≠ ascii '\\') (rest : Bytes) :
    stringBody? (b :: rest) = (stringBody? rest).map fun p => (b :: p.1, p.2) := by
  rw [stringBody?.eq_def]
  simp [hq, hs]

theorem stringBody?_backslash (c : UInt8) (rest : Bytes) :
    stringBody? (ascii '\\' :: c :: rest) =
      (stringBody? rest).map fun p => (ascii '\\' :: c :: p.1, p.2) := by
  have hq : ascii '\\' ≠ ascii '"' := by decide
  rw [stringBody?.eq_def]
  simp [hq]

/-- What a byte contributes to a literal: itself, or a unit where its number has to be written. -/
def pieceOf (b : UInt8) : Piece :=
  if b < 0x20 ∧ b ∉ [8, 9, 10, 12, 13] then .unit b.toNat else .byte b

theorem unit?_hexDigit : ∀ n < 32,
    unit? (ascii '0') (ascii '0') (hexDigit (n / 16)) (hexDigit (n % 16)) = some n := by
  decide

/-- Neither a control character nor one that ends or escapes. -/
def IsOrdinary (b : UInt8) : Prop := 0x20 ≤ b ∧ b ≠ ascii '"' ∧ b ≠ ascii '\\'

theorem isOrdinary_hexDigit : ∀ n < 32,
    IsOrdinary (hexDigit (n / 16)) ∧ IsOrdinary (hexDigit (n % 16)) := by
  unfold IsOrdinary
  decide

/-- How a byte is written: behind a backslash as a letter, or as a unit, or as it is. -/
inductive WrittenAs (b : UInt8) : Bytes → Prop
  | letter (letter : UInt8) (solid : 0x20 ≤ letter) (free : letter ≠ ascii 'u')
      (back : unescape? letter = some b) (piece : pieceOf b = .byte b) :
      WrittenAs b [ascii '\\', letter]
  | unit (control : b < 0x20) (piece : pieceOf b = .unit b.toNat) :
      WrittenAs b [ascii '\\', ascii 'u', ascii '0', ascii '0', hexDigit (b.toNat / 16),
        hexDigit (b.toNat % 16)]
  | plain (ordinary : IsOrdinary b) (piece : pieceOf b = .byte b) : WrittenAs b [b]

theorem writtenAs_escapeByte (b : UInt8) : WrittenAs b (escapeByte b) := by
  unfold escapeByte
  split_ifs with h₁ h₂ h₃ h₄ h₅ h₆ h₇ h₈
  iterate 7
    · subst b
      exact .letter _ (by decide) (by decide) (by decide) (by decide)
  · exact .unit h₈ (if_pos ⟨h₈, by simp [h₃, h₄, h₅, h₆, h₇]⟩)
  · exact .plain ⟨UInt8.not_lt.1 h₈, h₁, h₂⟩ (if_neg fun h => h₈ h.1)

theorem pieces?_escapeByte (b : UInt8) (rest : Bytes) :
    pieces? (escapeByte b ++ rest) = (pieces? rest).map (pieceOf b :: ·) := by
  have h := writtenAs_escapeByte b
  generalize escapeByte b = written at h
  cases h with
  | letter letter solid free back piece =>
    rw [piece]
    exact pieces?_letter free back rest
  | unit control piece =>
    rw [piece]
    exact pieces?_unit (unit?_hexDigit b.toNat control) rest
  | plain ordinary piece =>
    rw [piece]
    exact pieces?_of_ne ordinary.2.2 rest

theorem stringBody?_escapeByte (b : UInt8) (rest : Bytes) :
    stringBody? (escapeByte b ++ rest) =
      (stringBody? rest).map fun p => (escapeByte b ++ p.1, p.2) := by
  have h := writtenAs_escapeByte b
  generalize escapeByte b = written at h
  cases h with
  | letter letter => exact stringBody?_backslash letter rest
  | unit control =>
    obtain ⟨⟨-, hq, hs⟩, -, hq', hs'⟩ := isOrdinary_hexDigit b.toNat control
    have h0 : ascii '0' ≠ ascii '"' ∧ ascii '0' ≠ ascii '\\' := by decide
    simp only [List.cons_append, List.nil_append]
    rw [stringBody?_backslash, stringBody?_of_ne h0.1 h0.2, stringBody?_of_ne h0.1 h0.2,
      stringBody?_of_ne hq hs, stringBody?_of_ne hq' hs']
    simp only [Option.map_map]
    rfl
  | plain ordinary => exact stringBody?_of_ne ordinary.2.1 ordinary.2.2 rest

theorem hasNoControl_escapeByte (b : UInt8) : hasNoControl (escapeByte b) = true := by
  have h := writtenAs_escapeByte b
  have h0 : 0x20 ≤ ascii '\\' ∧ 0x20 ≤ ascii 'u' ∧ 0x20 ≤ ascii '0' := by decide
  generalize escapeByte b = written at h
  cases h with
  | letter letter solid => simp [hasNoControl, h0, solid]
  | unit control =>
    obtain ⟨⟨h, -⟩, h', -⟩ := isOrdinary_hexDigit b.toNat control
    simp [hasNoControl, h0, h, h']
  | plain ordinary => simp [hasNoControl, ordinary.1]

/-! ## Strings -/

/-- An escaped string ends at its closing quote. -/
theorem stringBody?_escape (b rest : Bytes) :
    stringBody? (escape b ++ ascii '"' :: rest) = some (escape b, rest) := by
  unfold escape
  induction b with
  | nil => exact stringBody?_quote rest
  | cons c b ih =>
    rw [List.flatMap_cons, List.append_assoc, stringBody?_escapeByte, ih]
    rfl

theorem pieces?_escape (b : Bytes) : pieces? (escape b) = some (b.map pieceOf) := by
  unfold escape
  induction b with
  | nil => rfl
  | cons c b ih =>
    rw [List.flatMap_cons, pieces?_escapeByte, ih]
    rfl

theorem hasNoControl_escape (b : Bytes) : hasNoControl (escape b) = true := by
  unfold escape
  induction b with
  | nil => rfl
  | cons c b ih =>
    have hc := hasNoControl_escapeByte c
    unfold hasNoControl at hc ih ⊢
    rw [List.flatMap_cons, List.all_append, hc, ih]
    rfl

theorem unpaired_of_lt {b : UInt8} (h : b < 0x20) :
    isLeading b.toNat = false ∧ isTrailing b.toNat = false := by
  have hn : b.toNat < 32 := h
  unfold isLeading isTrailing
  simp only [Bool.and_eq_false_iff, decide_eq_false_iff_not]
  omega

theorem single_toNat {alone : Nat → Option Bytes} {b : UInt8} (h : b < 0x20) :
    single alone b.toNat = some [b] := by
  have hn : b.toNat < 32 := h
  have hu : utf8 b.toNat = [b] := by
    unfold utf8
    rw [if_pos (by omega), UInt8.ofNat_toNat]
  simp [single, unpaired_of_lt h, hu]

/-- The first byte comes first, whatever follows. -/
theorem join_pieceOf (alone : Nat → Option Bytes) (b : UInt8) (rest : List Piece) :
    join alone (pieceOf b :: rest) = (join alone rest).map (b :: ·) := by
  unfold pieceOf
  split
  next h =>
    have hs : single alone b.toNat = some [b] := single_toNat h.1
    match rest with
    | [] => simp [join, hs]
    | .byte c :: rest => simp [join, hs, Function.comp_def]
    | .unit m :: rest => simp [join, hs, unpaired_of_lt h.1]
  · exact join.eq_2 ..

theorem join_map_pieceOf (alone : Nat → Option Bytes) (b : Bytes) :
    join alone (b.map pieceOf) = some b := by
  induction b with
  | nil => simp [join]
  | cons c b ih =>
    rw [List.map_cons, join_pieceOf, ih]
    rfl

@[simp] theorem text?_escape (s : String) : text? (escape (Bytes.ofText s)) = some s := by
  unfold text?
  rw [if_pos (hasNoControl_escape _), pieces?_escape, Option.bind_some, join_map_pieceOf,
    Option.bind_some, Bytes.text?_ofText]

theorem text?_of_escape {s : String} (h : escape (Bytes.ofText s) = Bytes.ofText s) :
    text? (Bytes.ofText s) = some s := by
  rw [← h]
  exact text?_escape s

/-! ## Numbers -/

theorem toNat_of_isDigit {c : Char} (h : c.isDigit = true) :
    isDigit c.toUInt8 = true ∧ c.toUInt8.toNat = c.toNat := by
  have hc : 48 ≤ c.toNat ∧ c.toNat ≤ 57 := by
    simpa [Char.isDigit, UInt32.le_iff_toNat_le] using h
  have hn : c.toUInt8.toNat = c.toNat := by
    show c.toNat % 256 = c.toNat
    omega
  refine ⟨?_, hn⟩
  unfold isDigit
  simp only [Bool.and_eq_true, decide_eq_true_eq, UInt8.le_iff_toNat_le, hn]
  exact hc

theorem isDigit_of_mem_natLiteral {n : Nat} {b : UInt8} (h : b ∈ natLiteral n) :
    isDigit b = true := by
  obtain ⟨c, hc, rfl⟩ := List.mem_map.1 h
  exact (toNat_of_isDigit (Text.isDigit_of_mem_toDigits hc)).1

/-- No zero stands before another digit. -/
theorem exists_natLiteral (n : Nat) :
    ∃ b more, natLiteral n = b :: more ∧ isDigit b = true ∧ (b = ascii '0' → more = []) := by
  obtain ⟨c, more, he, hc, hzero⟩ := Text.exists_toDigits n
  have hl : natLiteral n = c.toUInt8 :: more.map Char.toUInt8 := by
    unfold natLiteral
    rw [he]
    rfl
  refine ⟨_, _, hl, (toNat_of_isDigit hc).1, fun h => ?_⟩
  have hnat : c.toNat = 48 := (toNat_of_isDigit hc).2.symm.trans (congrArg UInt8.toNat h)
  rw [hzero (Char.toNat_inj.1 hnat), List.map_nil]

/-- A number is not continued by what follows. -/
def EndsNumber (rest : Bytes) : Prop :=
  ∀ b ∈ rest.head?, isDigit b = false ∧ b ≠ ascii '.' ∧ b ≠ ascii 'e' ∧ b ≠ ascii 'E'

theorem splitDigits_append {digits rest : Bytes} (hd : ∀ b ∈ digits, isDigit b = true)
    (hr : EndsNumber rest) : splitDigits (digits ++ rest) = (digits, rest) := by
  unfold splitDigits
  rw [List.takeWhile_append_of_pos hd, List.dropWhile_append_of_pos hd]
  cases rest with
  | nil => simp
  | cons b rest =>
    have hb := (hr b rfl).1
    simp [hb]

/-- A number that was written is cut out where nothing continues it. -/
theorem number?_natLiteral (n : Nat) {rest : Bytes} (hr : EndsNumber rest) :
    number? (natLiteral n ++ rest) = some (natLiteral n, rest) := by
  have hs := splitDigits_append (fun b hb => isDigit_of_mem_natLiteral (n := n) hb) hr
  obtain ⟨b, more, hl, hb, hzero⟩ := exists_natLiteral n
  have hw : wholePart? (natLiteral n ++ rest) = some (natLiteral n, rest) := by
    unfold wholePart?
    rw [hs, hl]
    exact if_neg fun h => h.2 (hzero h.1)
  have hf : fractionPart? rest = some ([], rest) := by
    cases rest with
    | nil => rfl
    | cons c rest => exact if_pos (hr c rfl).2.1
  have hp : powerPart? rest = some ([], rest) := by
    cases rest with
    | nil => rfl
    | cons c rest => exact if_pos (hr c rfl).2.2
  have hsign : b ≠ ascii '-' := by
    rintro rfl
    exact absurd hb (by decide)
  have hu : unsignedNumber? (natLiteral n ++ rest) = some (natLiteral n, rest) := by
    unfold unsignedNumber?
    simp [hw, hf, hp]
  rw [hl, List.cons_append] at hu ⊢
  exact (if_neg hsign).trans hu

theorem nat?_ofNat {n bound : Nat} (h : n < bound) : nat? bound (ofNat n) = some n := by
  have hall : ((natLiteral n).all fun b => decide (48 ≤ b ∧ b ≤ 57)) = true := by
    refine List.all_eq_true.2 fun b hb => ?_
    have hd := isDigit_of_mem_natLiteral hb
    simpa [isDigit] using hd
  have hvalue : (natLiteral n).foldl (fun n b => 10 * n + (b.toNat - 48)) 0 = n := by
    calc (natLiteral n).foldl (fun n b => 10 * n + (b.toNat - 48)) 0
        = (Nat.toDigits 10 n).foldl (fun n c => 10 * n + (c.toUInt8.toNat - 48)) 0 :=
          List.foldl_map
      _ = (Nat.toDigits 10 n).foldl (fun n c => 10 * n + (c.toNat - '0'.toNat)) 0 := by
          refine List.foldl_ext _ _ _ fun m c hc => ?_
          rw [(toNat_of_isDigit (Text.isDigit_of_mem_toDigits hc)).2]
          rfl
      _ = n := by
          rw [← Nat.ofDigitChars_eq_foldl]
          exact Nat.ofDigitChars_ten_toDigits
  unfold nat? ofNat
  simp only [hall, hvalue, if_true, if_pos h]

end Courier.Json
