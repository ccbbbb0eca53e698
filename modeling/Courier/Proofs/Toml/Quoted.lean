import Courier.Toml.Quoted
import Courier.Toml.Text
import Mathlib.Tactic.Common

/-!
# Quoted texts are read back

`WrittenAs` is how one character is written between double quotes, and the only case split over a
character. From it each notation is read back: the short ones by induction on the text, the long ones
with their runs of quotes. `text?_quote` says that every text is read back from the notation that is
chosen for it, with what follows it.
-/

namespace Courier.Toml

variable {c : Char} {s t rest : List Char}

/-! ## Characters between double quotes -/

theorem hexValue?_hexDigit : ∀ d < 16, hexValue? (hexDigit d) = some d := by decide

theorem hexChar?_hexDigit (h : c.toNat < 128) :
    hexChar? ['0', '0', hexDigit (c.toNat / 16), hexDigit (c.toNat % 16)] = some c := by
  have hzero : hexValue? '0' = some 0 := by decide
  have hhigh := hexValue?_hexDigit (c.toNat / 16) (by omega)
  have hlow := hexValue?_hexDigit (c.toNat % 16) (by omega)
  have hnumber : hexNumber? 0 ['0', '0', hexDigit (c.toNat / 16), hexDigit (c.toNat % 16)] =
      some c.toNat := by
    simp only [hexNumber?, hzero, hhigh, hlow, Option.bind_some]
    congr 1
    omega
  have hvalid : c.toNat.isValidChar := c.valid
  have hchar : Char.ofNatAux c.toNat hvalid = c := by
    have h := Char.ofNat_toNat c
    rwa [Char.ofNat, dif_pos hvalid] at h
  unfold hexChar?
  rw [hnumber, Option.bind_some, dif_pos hvalid, hchar]

/-- How a character other than a double quote is written between double quotes: behind a backslash as
a letter or as a number, or as it is. Only long texts have line breaks as they are. -/
inductive WrittenAs (long : Bool) (c : Char) : List Char → Prop
  | letter (letter : Char) (hu : letter ≠ 'u') (hU : letter ≠ 'U') (back : escaped? letter = some c) :
      WrittenAs long c ['\\', letter]
  | number (high low : Char) (back : hexChar? ['0', '0', high, low] = some c) :
      WrittenAs long c ['\\', 'u', '0', '0', high, low]
  | plain (hquote : c ≠ '"') (hslash : c ≠ '\\') (hreturn : c ≠ '\r')
      (hplain : isBasicChar c = true ∨ (long = true ∧ c = '\n')) : WrittenAs long c [c]

theorem printable_of_not_needsEscape (hescape : needsEscape c = false) (hline : c ≠ '\n') :
    c = '\t' ∨ (0x20 ≤ c.toNat ∧ c.toNat ≠ 0x7F) := by
  by_cases ht : c = '\t'
  · exact .inl ht
  · simp only [needsEscape, ht, hline, decide_eq_false_iff_not, ne_eq, not_false_eq_true,
      and_self, and_true] at hescape
    omega

theorem isBasicChar_of_not_needsEscape (hescape : needsEscape c = false) (hline : c ≠ '\n')
    (hquote : c ≠ '"') (hslash : c ≠ '\\') : isBasicChar c = true := by
  rcases printable_of_not_needsEscape hescape hline with rfl | hprintable
  · decide
  · have hquote' : c.toNat ≠ 0x22 := fun h => hquote (Char.toNat_inj.1 h)
    have hslash' : c.toNat ≠ 0x5C := fun h => hslash (Char.toNat_inj.1 h)
    by_cases hspace : c.toNat = 0x20
    · obtain rfl : c = ' ' := Char.toNat_inj.1 hspace
      decide
    · simp only [isBasicChar, decide_eq_true_eq]
      omega

theorem writtenAs_escapeChar (long : Bool) (hquote : c ≠ '"') :
    WrittenAs long c (escapeChar long c) := by
  unfold escapeChar
  split_ifs with hb ht hn hlong hf hr hs he
  · subst hb
    exact .letter 'b' (by decide) (by decide) rfl
  · subst ht
    exact .letter 't' (by decide) (by decide) rfl
  · subst hn
    exact .plain (by decide) (by decide) (by decide) (.inr ⟨hlong, rfl⟩)
  · subst hn
    exact .letter 'n' (by decide) (by decide) rfl
  · subst hf
    exact .letter 'f' (by decide) (by decide) rfl
  · subst hr
    exact .letter 'r' (by decide) (by decide) rfl
  · subst hs
    exact .letter '\\' (by decide) (by decide) rfl
  · refine .number _ _ (hexChar?_hexDigit ?_)
    simp only [needsEscape, decide_eq_true_eq] at he
    omega
  · exact .plain hquote hs hr
      (.inl (isBasicChar_of_not_needsEscape (Bool.eq_false_iff.2 he) hn hquote hs))

/-! ## Short texts between double quotes -/

theorem basicBody?_append {written : List Char} (h : WrittenAs false c written) (t : List Char) :
    basicBody? (written ++ t) = (basicBody? t).map (prepend c) := by
  cases h with
  | letter letter hu hU back =>
    show basicBody? ('\\' :: letter :: t) = _
    rw [basicBody?]
    · rw [back, Option.bind_some]
    · intro a b c d rest h
      exact absurd h hu
    · intro a b c d e f g h rest h'
      exact absurd h' hU
  | number high low back =>
    show basicBody? ('\\' :: 'u' :: '0' :: '0' :: high :: low :: t) = _
    rw [basicBody?, back, Option.bind_some]
  | plain hquote hslash hreturn hplain =>
    have hbasic : isBasicChar c = true := by simpa using hplain
    show basicBody? (c :: t) = _
    rw [basicBody?]
    · rw [if_pos hbasic]
    · exact hquote
    all_goals
      intros
      contradiction

/-- A text between double quotes is read back. -/
theorem basicBody?_escape (run : Nat) (s rest : List Char) :
    basicBody? (escape false 0 run s ++ '"' :: rest) = some (s, rest) := by
  induction s generalizing run with
  | nil => rfl
  | cons c s ih =>
    by_cases hquote : c = '"'
    · subst hquote
      have hwritten : WrittenAs false '"' ['\\', '"'] :=
        .letter '"' (by decide) (by decide) rfl
      have hescape : escape false 0 run ('"' :: s) = ['\\', '"'] ++ escape false 0 0 s := by
        simp [escape]
      rw [hescape, List.append_assoc, basicBody?_append hwritten, ih]
      rfl
    · have hescape : escape false 0 run (c :: s) = escapeChar false c ++ escape false 0 0 s := by
        simp [escape, hquote]
      rw [hescape, List.append_assoc, basicBody?_append (writtenAs_escapeChar false hquote), ih]
      rfl

/-! ## Short texts between single quotes -/

theorem literalBody?_append (hs : ∀ c ∈ s, isLiteralChar c = true) (rest : List Char) :
    literalBody? (s ++ '\'' :: rest) = some (s, rest) := by
  induction s with
  | nil => rfl
  | cons c s ih =>
    have hc := hs c List.mem_cons_self
    have hquote : c ≠ '\'' := by
      rintro rfl
      exact absurd hc (by decide)
    show literalBody? (c :: (s ++ '\'' :: rest)) = _
    rw [literalBody?, if_pos hc, ih fun d hd => hs d (List.mem_cons_of_mem c hd)]
    · rfl
    · exact hquote

/-! ## Long texts between double quotes -/

theorem longBasicBody?_append {written : List Char} (h : WrittenAs true c written) (t : List Char) :
    longBasicBody? false (written ++ t) = (longBasicBody? false t).map (prepend c) := by
  cases h with
  | letter letter hu hU back =>
    show longBasicBody? false ('\\' :: letter :: t) = _
    rw [longBasicBody?]
    · rw [back]
    · intro a b c d rest h
      exact absurd h hu
    · intro a b c d e f g h rest h'
      exact absurd h' hU
  | number high low back =>
    show longBasicBody? false ('\\' :: 'u' :: '0' :: '0' :: high :: low :: t) = _
    rw [longBasicBody?, back, Option.bind_some]
  | plain hquote hslash hreturn hplain =>
    have hkept : c = '"' ∨ c = '\n' ∨ isBasicChar c = true := by
      rcases hplain with hbasic | ⟨-, hline⟩
      · exact .inr (.inr hbasic)
      · exact .inr (.inl hline)
    show longBasicBody? false (c :: t) = _
    rw [longBasicBody?]
    · rw [if_neg (by simp), if_pos hkept]
    all_goals
      intros
      contradiction

/-- A quote that stands for itself is not followed by two more. -/
theorem longBasicBody?_quote (h : ∀ u, t ≠ '"' :: '"' :: u) :
    longBasicBody? false ('"' :: t) = (longBasicBody? false t).map (prepend '"') := by
  rw [longBasicBody?]
  · rw [if_neg (by simp), if_pos (.inl rfl)]
  · exact fun u _ ht => h _ ht
  · exact fun u _ ht => h _ ht
  · exact fun u _ ht => h _ ht
  all_goals
    intros
    contradiction

theorem longBasicBody?_close (hrest : rest.head? ≠ some '"') :
    longBasicBody? false ('"' :: '"' :: '"' :: rest) = some ([], rest) ∧
      longBasicBody? false ('"' :: '"' :: '"' :: '"' :: rest) = some (['"'], rest) ∧
      longBasicBody? false ('"' :: '"' :: '"' :: '"' :: '"' :: rest) = some (['"', '"'], rest) := by
  have hne (u : List Char) : rest ≠ '"' :: u := by
    rintro rfl
    exact hrest rfl
  refine ⟨?_, ?_, ?_⟩
  · rw [longBasicBody?]
    · exact fun u h => hne _ h
    · exact fun u h => hne _ h
  · rw [longBasicBody?]
    exact fun u h => hne _ h
  · rw [longBasicBody?]

/-- What is written of a character begins with a quote only if it is one that stands for itself. -/
theorem escape_append_ne {long : Bool} {bare run : Nat} (h : c ≠ '"' ∨ ¬ run < bare)
    (s t u : List Char) : escape long bare run (c :: s) ++ t ≠ '"' :: u := by
  by_cases hquote : c = '"'
  · have hrun : ¬ run < bare := h.resolve_left fun hne => hne hquote
    simp [escape, hquote, hrun]
  · have hwritten := writtenAs_escapeChar long hquote
    simp only [escape, if_neg hquote]
    generalize escapeChar long c = written at hwritten
    cases hwritten <;> simp [hquote]

/-- A quote that stands for itself is followed by two more only where the text ends. -/
theorem escape_append_ne_quotes {run : Nat} (hnil : s ≠ []) (hone : s = ['"'] → run ≠ 0)
    (t u : List Char) : escape true 2 (run + 1) s ++ t ≠ '"' :: '"' :: u := by
  cases s with
  | nil => exact absurd rfl hnil
  | cons d s =>
    by_cases hd : d = '"' ∧ run + 1 < 2
    · obtain ⟨rfl, hrun⟩ := hd
      obtain rfl : run = 0 := by omega
      cases s with
      | nil => exact absurd rfl (hone rfl)
      | cons e s => exact fun hu => escape_append_ne (.inr (by decide)) s t u (List.cons.inj hu).2
    · refine escape_append_ne ?_ s t _
      by_cases hquote : d = '"'
      · exact .inr fun hrun => hd ⟨hquote, hrun⟩
      · exact .inl hquote

/-- A long text between double quotes is read back. The quotes before the closing ones are looked at
together with these. -/
theorem longBasicBody?_escape (hrest : rest.head? ≠ some '"') (run : Nat) (s : List Char) :
    longBasicBody? false (escape true 2 run s ++ '"' :: '"' :: '"' :: rest) = some (s, rest) := by
  obtain ⟨hclose, hclose₁, hclose₂⟩ := longBasicBody?_close hrest
  induction s generalizing run with
  | nil => exact hclose
  | cons c s ih =>
    by_cases hquote : c = '"'
    · subst hquote
      by_cases hrun : run < 2
      · have hescape : escape true 2 run ('"' :: s) = '"' :: escape true 2 (run + 1) s := by
          simp [escape, hrun]
        rw [hescape]
        by_cases hnil : s = []
        · subst hnil
          exact hclose₁
        by_cases hone : s = ['"'] ∧ run = 0
        · obtain ⟨rfl, rfl⟩ := hone
          exact hclose₂
        rw [List.cons_append, longBasicBody?_quote, ih]
        · rfl
        · exact escape_append_ne_quotes hnil (fun hs hrun => hone ⟨hs, hrun⟩) _
      · have hwritten : WrittenAs true '"' ['\\', '"'] :=
          .letter '"' (by decide) (by decide) rfl
        have hescape : escape true 2 run ('"' :: s) = ['\\', '"'] ++ escape true 2 0 s := by
          simp [escape, hrun]
        rw [hescape, List.append_assoc, longBasicBody?_append hwritten, ih]
        rfl
    · have hescape : escape true 2 run (c :: s) = escapeChar true c ++ escape true 2 0 s := by
        simp [escape, hquote]
      rw [hescape, List.append_assoc, longBasicBody?_append (writtenAs_escapeChar true hquote), ih]
      rfl

/-! ## Long texts between single quotes -/

theorem run_le_longestRun (c : Char) (run : Nat) (s : List Char) : run ≤ longestRun c run s := by
  induction s generalizing run with
  | nil => exact Nat.le_refl run
  | cons d s ih =>
    simp only [longestRun]
    split
    · exact Nat.le_of_succ_le (ih (run + 1))
    · exact Nat.le_max_left ..

/-- A character that stands for itself between three single quotes, where it is not the first of three
quotes. -/
theorem longLiteralBody?_cons (hkept : c = '\'' ∨ c = '\n' ∨ isLiteralChar c = true)
    (h : c = '\'' → ∀ u, t ≠ '\'' :: '\'' :: u) :
    longLiteralBody? (c :: t) = (longLiteralBody? t).map (prepend c) := by
  have hreturn : c ≠ '\r' := by
    rintro rfl
    revert hkept
    decide
  rw [longLiteralBody?]
  · rw [if_pos hkept]
  · exact fun u hc ht => h hc _ ht
  · exact fun u hc ht => h hc _ ht
  · exact fun u hc ht => h hc _ ht
  · exact fun u hc _ => hreturn hc

theorem longLiteralBody?_close (hrest : rest.head? ≠ some '\'') :
    longLiteralBody? ('\'' :: '\'' :: '\'' :: rest) = some ([], rest) ∧
      longLiteralBody? ('\'' :: '\'' :: '\'' :: '\'' :: rest) = some (['\''], rest) ∧
      longLiteralBody? ('\'' :: '\'' :: '\'' :: '\'' :: '\'' :: rest) = some (['\'', '\''], rest) := by
  have hne (u : List Char) : rest ≠ '\'' :: u := by
    rintro rfl
    exact hrest rfl
  refine ⟨?_, ?_, ?_⟩
  · rw [longLiteralBody?]
    · exact fun u h => hne _ h
    · exact fun u h => hne _ h
  · rw [longLiteralBody?]
    exact fun u h => hne _ h
  · rw [longLiteralBody?]

/-- Where no three quotes stand in a row, a quote is followed by two more only where the text ends. -/
theorem append_ne_quotes {run : Nat} (hrun : longestRun '\'' (run + 1) s ≤ 2) (hnil : s ≠ [])
    (hone : s ≠ ['\'']) (t u : List Char) : s ++ t ≠ '\'' :: '\'' :: u := by
  intro hu
  cases s with
  | nil => exact hnil rfl
  | cons d s =>
    obtain rfl : d = '\'' := (List.cons.inj hu).1
    cases s with
    | nil => exact hone rfl
    | cons e s =>
      obtain rfl : e = '\'' := (List.cons.inj (List.cons.inj hu).2).1
      have hthree := run_le_longestRun '\'' (run + 1 + 1 + 1) s
      simp only [longestRun, if_true] at hrun
      omega

/-- A long text between single quotes is read back, if it has no three of them in a row. -/
theorem longLiteralBody?_append (hrest : rest.head? ≠ some '\'') {run : Nat}
    (hs : ∀ c ∈ s, c = '\'' ∨ c = '\n' ∨ isLiteralChar c = true)
    (hrun : longestRun '\'' run s ≤ 2) :
    longLiteralBody? (s ++ '\'' :: '\'' :: '\'' :: rest) = some (s, rest) := by
  obtain ⟨hclose, hclose₁, hclose₂⟩ := longLiteralBody?_close hrest
  induction s generalizing run with
  | nil => exact hclose
  | cons c s ih =>
    have hkept := hs c List.mem_cons_self
    have hmore : ∀ c ∈ s, c = '\'' ∨ c = '\n' ∨ isLiteralChar c = true :=
      fun d hd => hs d (List.mem_cons_of_mem c hd)
    simp only [longestRun] at hrun
    split at hrun
    next hquote =>
      subst hquote
      by_cases hnil : s = []
      · subst hnil
        exact hclose₁
      by_cases hone : s = ['\'']
      · subst hone
        exact hclose₂
      rw [List.cons_append, longLiteralBody?_cons hkept fun _ => append_ne_quotes hrun hnil hone _,
        ih hmore hrun]
      rfl
    next hquote =>
      have hrest : longestRun '\'' 0 s ≤ 2 := Nat.le_trans (Nat.le_max_right ..) hrun
      rw [List.cons_append, longLiteralBody?_cons hkept fun hc => absurd hc hquote, ih hmore hrest]
      rfl

/-! ## The notations -/

theorem isLiteralChar_of_not_needsEscape (hescape : needsEscape c = false) (hline : c ≠ '\n')
    (hquote : c ≠ '\'') : isLiteralChar c = true := by
  rcases printable_of_not_needsEscape hescape hline with rfl | hprintable
  · decide
  · have hquote' : c.toNat ≠ 0x27 := fun h => hquote (Char.toNat_inj.1 h)
    simp only [isLiteralChar, decide_eq_true_eq]
    omega

theorem skipLineBreak_of_ne (hline : ∀ u, t ≠ '\n' :: u) (hreturn : ∀ u, t ≠ '\r' :: u) :
    skipLineBreak t = t := by
  have hnone : lineBreak? t = none := by
    unfold lineBreak?
    split
    next u => exact absurd rfl (hline u)
    next u => exact absurd rfl (hreturn _)
    next => rfl
  rw [skipLineBreak, hnone]
  rfl

/-- The line break before a long text is passed over, and it is there if it is needed. -/
theorem skipLineBreak_longStart (hline : '\n' ∉ s → ∀ u, t ≠ '\n' :: u)
    (hreturn : '\n' ∉ s → ∀ u, t ≠ '\r' :: u) : skipLineBreak (longStart s ++ t) = t := by
  unfold longStart
  by_cases h : '\n' ∈ s
  · rw [if_pos h]
    rfl
  · rw [if_neg h]
    exact skipLineBreak_of_ne (hline h) (hreturn h)

theorem text?_basic (hrest : rest.head? ≠ some '"') :
    text? (Notation.basic.write s ++ rest) = some (s, rest) := by
  have hopen : ∀ u, escape false 0 0 s ++ '"' :: rest ≠ '"' :: '"' :: u := by
    intro u hu
    cases s with
    | nil =>
      obtain rfl : rest = '"' :: u := (List.cons.inj hu).2
      exact hrest rfl
    | cons c s => exact escape_append_ne (.inr (by decide)) s _ _ hu
  have hread : text? ('"' :: (escape false 0 0 s ++ '"' :: rest)) =
      basicBody? (escape false 0 0 s ++ '"' :: rest) := by
    rw [text?]
    exact hopen
  rw [Notation.write, List.cons_append, List.append_assoc, List.singleton_append, hread,
    basicBody?_escape]

theorem text?_literal (hrest : rest.head? ≠ some '\'')
    (hs : ∀ c ∈ s, isLiteralChar c = true) :
    text? (Notation.literal.write s ++ rest) = some (s, rest) := by
  have hopen : ∀ u, s ++ '\'' :: rest ≠ '\'' :: '\'' :: u := by
    intro u hu
    cases s with
    | nil =>
      obtain rfl : rest = '\'' :: u := (List.cons.inj hu).2
      exact hrest rfl
    | cons c s =>
      obtain rfl : c = '\'' := (List.cons.inj hu).1
      exact absurd (hs '\'' List.mem_cons_self) (by decide)
  have hread : text? ('\'' :: (s ++ '\'' :: rest)) = literalBody? (s ++ '\'' :: rest) := by
    rw [text?]
    exact hopen
  rw [Notation.write, List.cons_append, List.append_assoc, List.singleton_append, hread,
    literalBody?_append hs]

theorem text?_longBasic (hrest : rest.head? ≠ some '"') :
    text? (Notation.longBasic.write s ++ rest) = some (s, rest) := by
  have hstart (d : Char) (hd : d = '\n' ∨ d = '\r') (hline : '\n' ∉ s) (u : List Char) :
      escape true 2 0 s ++ '"' :: '"' :: '"' :: rest ≠ d :: u := by
    cases s with
    | nil => rcases hd with rfl | rfl <;> simp [escape]
    | cons c s =>
      have hc : c ≠ '\n' := fun h => hline (h ▸ List.mem_cons_self)
      by_cases hquote : c = '"'
      · rcases hd with rfl | rfl <;> simp [escape, hquote]
      · have hwritten := writtenAs_escapeChar true hquote
        simp only [escape, if_neg hquote]
        generalize escapeChar true c = written at hwritten
        cases hwritten with
        | letter | number => rcases hd with rfl | rfl <;> simp
        | plain _ _ hreturn => rcases hd with rfl | rfl <;> simp [hc, hreturn]
  have hskip := skipLineBreak_longStart (hstart '\n' (.inl rfl)) (hstart '\r' (.inr rfl))
  have hwrite : Notation.longBasic.write s ++ rest = '"' :: '"' :: '"' ::
      (longStart s ++ (escape true 2 0 s ++ '"' :: '"' :: '"' :: rest)) := by
    simp [Notation.write]
  rw [hwrite, text?, hskip, longBasicBody?_escape hrest]

theorem text?_longLiteral (hrest : rest.head? ≠ some '\'')
    (hs : ∀ c ∈ s, c = '\'' ∨ c = '\n' ∨ isLiteralChar c = true) (hrun : longestRun '\'' 0 s ≤ 2) :
    text? (Notation.longLiteral.write s ++ rest) = some (s, rest) := by
  have hstart (d : Char) (hd : d = '\n' ∨ d = '\r') (hline : '\n' ∉ s) (u : List Char) :
      s ++ '\'' :: '\'' :: '\'' :: rest ≠ d :: u := by
    intro hu
    cases s with
    | nil => rcases hd with rfl | rfl <;> exact absurd (List.cons.inj hu).1 (by decide)
    | cons c s =>
      obtain rfl : c = d := (List.cons.inj hu).1
      rcases hd with rfl | rfl
      · exact hline List.mem_cons_self
      · exact absurd (hs '\r' List.mem_cons_self) (by decide)
  have hskip := skipLineBreak_longStart (hstart '\n' (.inl rfl)) (hstart '\r' (.inr rfl))
  have hwrite : Notation.longLiteral.write s ++ rest = '\'' :: '\'' :: '\'' ::
      (longStart s ++ (s ++ '\'' :: '\'' :: '\'' :: rest)) := by
    simp [Notation.write]
  rw [hwrite, text?, hskip, longLiteralBody?_append hrest hs hrun]

/-- Every text is read back from the notation in which it is written, with what follows it. -/
theorem text?_quote (hdouble : rest.head? ≠ some '"') (hsingle : rest.head? ≠ some '\'')
    (s : List Char) : text? (quote s ++ rest) = some (s, rest) := by
  have hplain (h : (s.all fun c => ! needsEscape c) = true) : ∀ c ∈ s, needsEscape c = false :=
    fun c hc => by simpa using List.all_eq_true.1 h c hc
  unfold quote Notation.of
  dsimp only
  split_ifs with hbasic hliteral hlongBasic hlongLiteral hline
  · exact text?_basic hdouble
  · refine text?_literal hsingle fun c hc => ?_
    refine isLiteralChar_of_not_needsEscape (hplain hliteral.1 c hc) ?_ ?_
    · rintro rfl
      exact absurd hc (by simpa using hliteral.2.2)
    · rintro rfl
      exact hliteral.2.1 hc
  · exact text?_longBasic hdouble
  · refine text?_longLiteral hsingle (fun c hc => ?_) hlongLiteral.2
    by_cases hquote : c = '\''
    · exact .inl hquote
    · by_cases hbreak : c = '\n'
      · exact .inr (.inl hbreak)
      · exact .inr (.inr (isLiteralChar_of_not_needsEscape (hplain hlongLiteral.1 c hc) hbreak hquote))
  · exact text?_longBasic hdouble
  · exact text?_basic hdouble

end Courier.Toml
