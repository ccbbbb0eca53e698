import Courier.Proofs.Toml.Values

/-!
# Lines are read back

What `lines?` makes of a line that was written: of one that gives a name a value (`lines?_pair`), of
one that opens a table (`lines?_header`), of an empty one, and of the end. `foldlM_table` says what a
header and the lines behind it do to the document in the making.
-/

namespace Courier.Toml

variable {c : Char} {rest written : List Char} {name : String} {value : Toml} {fuel : Nat}
  {d : Draft}

/-! ## Names -/

/-- A name that can stand before a value as it is. -/
structure IsBare (name : String) : Prop where
  nonempty : name.toList ≠ []
  keyChars : ∀ c ∈ name.toList, isKeyChar c = true

instance (name : String) : Decidable (IsBare name) :=
  decidable_of_iff (name.toList ≠ [] ∧ name.toList.all isKeyChar = true)
    ⟨fun h => ⟨h.1, List.all_eq_true.1 h.2⟩, fun h => ⟨h.nonempty, List.all_eq_true.2 h.keyChars⟩⟩

theorem ne_of_isKeyChar {e : Char} (hc : isKeyChar c = true) (he : isKeyChar e = false) : c ≠ e := by
  rintro rfl
  rw [hc] at he
  cases he

/-- A bare name begins with a character that begins no other kind of line. -/
theorem IsBare.exists_cons (h : IsBare name) :
    ∃ c more, name.toList = c :: more ∧ isKeyChar c = true := by
  obtain ⟨c, more, he⟩ := List.exists_cons_of_ne_nil h.nonempty
  exact ⟨c, more, he, h.keyChars c (he ▸ List.mem_cons_self)⟩

theorem isBlank_of_isKeyChar (hc : isKeyChar c = true) : isBlank c = false :=
  isBlank_eq_false (ne_of_isKeyChar hc (by decide)) (ne_of_isKeyChar hc (by decide))

theorem keyPart?_append (h : IsBare name) (hc : isKeyChar c = false) (rest : List Char) :
    keyPart? (name.toList ++ c :: rest) = some (name, c :: rest) := by
  have hcut : (name.toList ++ c :: rest).takeWhile isKeyChar = name.toList ∧
      (name.toList ++ c :: rest).dropWhile isKeyChar = c :: rest := by
    rw [List.takeWhile_append_of_pos h.keyChars, List.dropWhile_append_of_pos h.keyChars]
    simp [hc]
  obtain ⟨b, more, he, hb⟩ := h.exists_cons
  rw [he, List.cons_append] at hcut ⊢
  rw [keyPart?, hcut.1, hcut.2]
  · show some (String.ofList (b :: more), c :: rest) = _
    rw [← he, String.ofList_toList]
  · exact fun _ h => ne_of_isKeyChar hb (by decide) (List.cons.inj h).1
  · exact fun _ h => ne_of_isKeyChar hb (by decide) (List.cons.inj h).1

/-- A bare name is a key by itself, unless a dot follows it. -/
theorem key?_append (h : IsBare name) (hc : isKeyChar c = false)
    (hdot : ∀ more, skipBlanks (c :: rest) ≠ '.' :: more) :
    key? (name.toList ++ c :: rest) = some ([name], skipBlanks (c :: rest)) := by
  obtain ⟨b, more, he, hb⟩ := h.exists_cons
  have hskip : skipBlanks (name.toList ++ c :: rest) = name.toList ++ c :: rest := by
    rw [he, List.cons_append, skipBlanks_cons (isBlank_of_isKeyChar hb)]
  have hparts : keyParts? depthBound (name.toList ++ c :: rest) =
      some ([name], skipBlanks (c :: rest)) := by
    rw [depthBound, keyParts?, hskip, keyPart?_append h hc]
    dsimp only
    split
    next after hafter => exact absurd hafter (hdot after)
    next => rfl
  rw [key?, hparts]
  rfl

/-! ## Lines -/

theorem skipBlanks_break (rest : List Char) : skipBlanks ('\n' :: rest) = '\n' :: rest :=
  skipBlanks_cons (by decide) rest

theorem nextLine?_break (rest : List Char) : nextLine? ('\n' :: rest) = some rest := by
  rw [nextLine?, skipBlanks_break]
  rfl

theorem line?_pair (h : IsBare name) (hspells : Spells written value) (bound : Nat)
    (rest : List Char) :
    line? bound (name.toList ++ [' ', '=', ' '] ++ written ++ ['\n'] ++ rest) =
      some (.pair [name] value, rest) := by
  have hkey : key? (name.toList ++ ' ' :: '=' :: ' ' :: (written ++ '\n' :: rest)) =
      some ([name], '=' :: ' ' :: (written ++ '\n' :: rest)) :=
    key?_append h (by decide) fun more hdot => absurd (List.cons.inj hdot).1 (by decide)
  have hvalue := hspells (4 * bound + 3) (depthBound - 1) rest
  obtain ⟨c, more, he, hc⟩ := h.exists_cons
  simp only [List.append_assoc, List.cons_append, List.nil_append]
  rw [he, List.cons_append] at hkey ⊢
  rw [line?, hkey]
  · show ((value? (4 * bound + 4) (depthBound - 1) (skipBlanks (written ++ '\n' :: rest))).bind _) = _
    rw [hvalue, Option.bind_some]
    show (nextLine? ('\n' :: rest)).map _ = _
    rw [nextLine?_break]
    rfl
  · exact fun _ h => ne_of_isKeyChar hc (by decide) (List.cons.inj h).1
  · exact fun _ h => ne_of_isKeyChar hc (by decide) (List.cons.inj h).1

theorem line?_header (h : IsBare name) (bound : Nat) (rest : List Char) :
    line? bound ('[' :: (name.toList ++ ']' :: '\n' :: rest)) = some (.header [name], rest) := by
  have hkey : key? (name.toList ++ ']' :: '\n' :: rest) = some ([name], ']' :: '\n' :: rest) :=
    key?_append h (by decide) fun more hdot => absurd (List.cons.inj hdot).1 (by decide)
  obtain ⟨c, more, he, hc⟩ := h.exists_cons
  rw [he, List.cons_append] at hkey ⊢
  rw [line?, hkey]
  · show (nextLine? ('\n' :: rest)).map _ = _
    rw [nextLine?_break]
    rfl
  · exact fun _ h => ne_of_isKeyChar hc (by decide) (List.cons.inj h).1

/-! ## Texts of several lines -/

theorem lines?_of_line {line : Line} {s : List Char} (hc : isKeyChar c = true ∨ c = '[')
    (h : line? fuel (c :: s) = some (line, rest)) :
    lines? (fuel + 1) (c :: s) = (lines? fuel rest).map (line :: ·) := by
  have hne (d : Char) (hd : isKeyChar d = false) (hd' : d ≠ '[') : c ≠ d := by
    rcases hc with hc | rfl
    · exact ne_of_isKeyChar hc hd
    · exact hd'.symm
  have hblank : isBlank c = false := by
    rcases hc with hc | rfl
    · exact isBlank_of_isKeyChar hc
    · decide
  rw [lines?, skipBlanks_cons hblank]
  split
  next h => cases h
  next h => exact absurd (List.cons.inj h).1 (hne '#' (by decide) (by decide))
  next h => exact absurd (List.cons.inj h).1 (hne '\n' (by decide) (by decide))
  next h => exact absurd (List.cons.inj h).1 (hne '\r' (by decide) (by decide))
  · rw [h, Option.bind_some]

theorem lines?_pair (h : IsBare name) (hspells : Spells written value) (fuel : Nat)
    (rest : List Char) :
    lines? (fuel + 1) (name.toList ++ [' ', '=', ' '] ++ written ++ ['\n'] ++ rest) =
      (lines? fuel rest).map (.pair [name] value :: ·) := by
  have hline := line?_pair h hspells fuel rest
  obtain ⟨c, more, he, hc⟩ := h.exists_cons
  rw [he] at hline ⊢
  exact lines?_of_line (.inl hc) hline

theorem lines?_header (h : IsBare name) (fuel : Nat) (rest : List Char) :
    lines? (fuel + 1) ('[' :: (name.toList ++ ']' :: '\n' :: rest)) =
      (lines? fuel rest).map (.header [name] :: ·) :=
  lines?_of_line (.inr rfl) (line?_header h fuel rest)

theorem lines?_break (fuel : Nat) (rest : List Char) :
    lines? (fuel + 1) ('\n' :: rest) = lines? fuel rest := by
  rw [lines?, skipBlanks_break]
  rfl

theorem lines?_nil (fuel : Nat) : lines? (fuel + 1) [] = some [] := rfl

/-! ## Documents -/

theorem add?_pair (h : d.members.lookup name = none) :
    d.add? (.pair [name] value) = some { d with members := d.members ++ [(name, value)] } := by
  simp [Draft.add?, addPair?, insertAt, updateAt, h]

theorem finish?_of_nil (h : d.path = []) : d.finish? = some d.members := by
  simp [Draft.finish?, h]

/-- A table under a new name is put behind those that are finished. -/
theorem finish?_of_new (hpath : d.path = [name]) (helement : d.isElement = false)
    (hnew : d.finished.lookup name = none) :
    d.finish? = some (d.finished ++ [(name, .table .header d.members)]) := by
  simp [Draft.finish?, updateAt, hpath, helement, hnew]

theorem add?_header {finished : Members} (h : d.finish? = some finished)
    (hnew : finished.lookup name = none) :
    d.add? (.header [name]) = some ⟨finished, [name], false, []⟩ := by
  have hkept : without name finished = finished := by
    refine List.filter_eq_self.2 fun m hm => ?_
    have hne := List.lookup_eq_none_iff.1 hnew m hm
    exact decide_eq_true fun heq => by simp [heq] at hne
  simp [Draft.add?, h, Draft.openTable?, Draft.membersAt, updateAt, hnew, hkept]

/-- The lines that give names their values. -/
def pairLines (members : Members) : List Line := members.map fun m => .pair [m.1] m.2

theorem foldlM_pairLines {members : Members} (h : ((d.members ++ members).map Prod.fst).Nodup) :
    (pairLines members).foldlM Draft.add? d =
      some { d with members := d.members ++ members } := by
  induction members generalizing d with
  | nil => simp [pairLines]
  | cons m members ih =>
    have hnew : d.members.lookup m.1 = none := by
      refine List.lookup_eq_none_iff.2 fun e he => ?_
      rw [List.map_append, List.nodup_append] at h
      have hne := h.2.2 e.1 (List.mem_map_of_mem he) m.1 (List.mem_map_of_mem List.mem_cons_self)
      simpa using hne.symm
    have hmore := ih (d := { d with members := d.members ++ [m] }) (by simpa using h)
    simp only [pairLines, List.map_cons, List.foldlM_cons, add?_pair hnew] at hmore ⊢
    simpa using hmore

/-- A header with lines behind it opens a table and fills it. -/
theorem foldlM_table {finished members : Members} (h : d.finish? = some finished)
    (hnew : finished.lookup name = none) (hnames : (members.map Prod.fst).Nodup) :
    (.header [name] :: pairLines members).foldlM Draft.add? d =
      some ⟨finished, [name], false, members⟩ := by
  rw [List.foldlM_cons, add?_header h hnew]
  exact foldlM_pairLines hnames

end Courier.Toml
