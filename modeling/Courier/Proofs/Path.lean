import Courier.Path
import Mathlib.Tactic.Common

/-!
# Paths of files in a directory

A path is `behind stem name`: its last name behind a stem, which is empty or ends in a separator.
`Path.join_eq` gives that form to the path of a name under a directory, `Path.exists_join_eq` to that
of any text. From it follow the names on such a path (`Path.names_behind`), and what becomes of a
name with a dot: its extension (`Path.extension?_dotted`) and another one in its place
(`Path.withExtension_behind`).
-/

namespace Courier.Path

/-- Whether a text can be the name of a file: it is not empty, neither of the two dots, and free of
separators. -/
structure IsName (name : String) : Prop where
  nonempty : name ≠ ""
  here : name ≠ "."
  up : name ≠ ".."
  separator : '/' ∉ name.toList

/-! ## Up to the last separator -/

/-- What stands on a path before its last name: nothing, or a text that ends in a separator. -/
def IsStem (stem : List Char) : Prop := stem = [] ∨ ∃ s, stem = s ++ ['/']

/-- The path of a name behind a stem. -/
def behind (stem : List Char) (name : String) : String := String.ofList (stem ++ name.toList)

@[simp] theorem toList_behind (stem : List Char) (name : String) :
    (behind stem name).toList = stem ++ name.toList := String.toList_ofList

/-- The part of a path of a file in a directory up to the name. -/
def stemOf (base : String) : List Char :=
  if endsInSeparator base then base.toList else base.toList ++ ['/']

theorem exists_stemOf (base : String) : ∃ s, stemOf base = s ++ ['/'] := by
  unfold stemOf
  split
  next h =>
    have hl : base.toList.getLast? = some '/' := by simpa [endsInSeparator] using h
    obtain ⟨s, hs⟩ := List.getLast?_eq_some_iff.1 hl
    exact ⟨s, hs⟩
  · exact ⟨base.toList, rfl⟩

theorem isStem_stemOf (base : String) : IsStem (stemOf base) := .inr (exists_stemOf base)

theorem isAbsolute_of_not_mem {name : String} (h : '/' ∉ name.toList) : isAbsolute name = false := by
  unfold isAbsolute
  cases hl : name.toList with
  | nil => rfl
  | cons c rest =>
    rw [hl] at h
    have hc : c ≠ '/' := fun he => h (by rw [he]; exact List.mem_cons_self)
    simpa using hc

theorem toList_ne_nil {s : String} (h : s ≠ "") : s.toList ≠ [] := by
  intro he
  exact h (String.toList_inj.1 (by simpa using he))

theorem join_eq {base name : String} (hb : base ≠ "") (hn : '/' ∉ name.toList) :
    join base name = behind (stemOf base) name := by
  rw [← String.toList_inj, toList_behind]
  unfold join stemOf
  rw [if_neg (by rw [isAbsolute_of_not_mem hn]; exact Bool.false_ne_true)]
  by_cases he : endsInSeparator base = true
  · rw [if_pos (.inr he), if_pos he, String.toList_append]
  · rw [if_neg (by rintro (h | h); exacts [hb h, he h]), if_neg he]
    simp [String.toList_append]

theorem isAbsolute_behind (stem : List Char) {name : String} (hn : '/' ∉ name.toList) :
    isAbsolute (behind stem name) = isAbsolute (String.ofList stem) := by
  cases stem with
  | nil =>
    show isAbsolute (String.ofList name.toList) = false
    rw [String.ofList_toList, isAbsolute_of_not_mem hn]
  | cons c rest => simp [isAbsolute]

theorem isAbsolute_stemOf {base : String} (hb : base ≠ "") :
    isAbsolute (String.ofList (stemOf base)) = isAbsolute base := by
  obtain ⟨c, rest, hl⟩ := List.exists_cons_of_ne_nil (toList_ne_nil hb)
  unfold isAbsolute stemOf
  split <;> simp [hl]

theorem endsInSeparator_behind {stem : List Char} {name : String} (h₀ : name ≠ "")
    (hn : '/' ∉ name.toList) : endsInSeparator (behind stem name) = false := by
  have hl := List.getLast?_eq_some_getLast (toList_ne_nil h₀)
  have hm := List.getLast_mem (toList_ne_nil h₀)
  have hc : name.toList.getLast (toList_ne_nil h₀) ≠ '/' := fun he =>
    hn (by rw [he] at hm; exact hm)
  unfold endsInSeparator
  rw [toList_behind, List.getLast?_append, hl]
  simpa using hc

theorem names_behind {stem : List Char} {name : String} (hs : IsStem stem) (h₀ : name ≠ "")
    (hn : '/' ∉ name.toList) : names (behind stem name) = names (String.ofList stem) ++ [name] := by
  have last : ((Text.fields '/' name.toList).filter (· ≠ [])).map String.ofList = [name] := by
    rw [Text.fields_of_not_mem hn]
    simp [toList_ne_nil h₀]
  unfold names
  rw [toList_behind, String.toList_ofList]
  rcases hs with rfl | ⟨s, rfl⟩
  · simpa [Text.fields] using last
  · rw [List.append_assoc, List.singleton_append, Text.fields_append, Text.fields_append,
      List.filter_append, List.filter_append, List.map_append, List.map_append, last]
    simp [Text.fields]

theorem names_stemOf (base : String) : names (String.ofList (stemOf base)) = names base := by
  unfold names stemOf
  split
  · rw [String.ofList_toList]
  · rw [String.toList_ofList, Text.fields_append, List.filter_append, List.map_append]
    simp [Text.fields]

/-- The names on a path are not empty, and there is nothing in them that is not in the path. -/
theorem of_mem_names {path name : String} (h : name ∈ names path) :
    name ≠ "" ∧ '/' ∉ name.toList ∧ name.toList ⊆ path.toList := by
  obtain ⟨field, hf, rfl⟩ := List.mem_map.1 h
  obtain ⟨hm, hne⟩ := List.mem_filter.1 hf
  rw [String.toList_ofList]
  refine ⟨fun h₀ => ?_, Text.not_mem_of_mem_fields hm, Text.subset_of_mem_fields hm⟩
  have hl := congrArg String.toList h₀
  rw [String.toList_ofList] at hl
  exact of_decide_eq_true hne hl

theorem names_ne_nil {path : String} (h₀ : path ≠ "") (ha : isAbsolute path = false) :
    names path ≠ [] := by
  obtain ⟨c, rest, hp⟩ := List.exists_cons_of_ne_nil (toList_ne_nil h₀)
  have hc : c ≠ '/' := by
    rintro rfl
    rw [isAbsolute, hp] at ha
    exact absurd ha (by simp)
  obtain ⟨field, hf⟩ := Text.exists_cons_mem_fields hc rest
  unfold names
  rw [hp]
  exact List.ne_nil_of_mem (List.mem_map.2 ⟨_, List.mem_filter.2 ⟨hf, by simp⟩, rfl⟩)

/-! ## The last piece of a text -/

/-- What stands behind the last separator of a text. -/
def lastPiece (s : String) : String := String.ofList (splitLast s.toList.reverse).1.reverse

theorem not_mem_lastPiece (s : String) : '/' ∉ (lastPiece s).toList := by
  intro h
  unfold lastPiece at h
  rw [String.toList_ofList, List.mem_reverse] at h
  have hall : (splitLast s.toList.reverse).1.all (fun c => decide (c ≠ '/')) = true :=
    List.all_takeWhile
  exact absurd rfl (of_decide_eq_true (List.all_eq_true.1 hall _ h))

theorem exists_stem_lastPiece (s : String) :
    ∃ stem, IsStem stem ∧ s.toList = stem ++ (lastPiece s).toList := by
  have hsplit : (splitLast s.toList.reverse).1 ++ (splitLast s.toList.reverse).2 =
      s.toList.reverse := List.takeWhile_append_dropWhile
  refine ⟨(splitLast s.toList.reverse).2.reverse, ?_, ?_⟩
  · have hhead := List.head?_dropWhile_not (fun c : Char => decide (c ≠ '/')) s.toList.reverse
    unfold splitLast
    cases h : s.toList.reverse.dropWhile fun c => decide (c ≠ '/') with
    | nil => exact .inl rfl
    | cons c rest =>
      rw [h] at hhead
      obtain rfl : c = '/' := by simpa using hhead
      exact .inr ⟨rest.reverse, by simp⟩
  · rw [lastPiece, String.toList_ofList, ← List.reverse_append, hsplit, List.reverse_reverse]

/-- A text without separators is its own last piece. -/
theorem lastPiece_of_not_mem {s : String} (h : '/' ∉ s.toList) : lastPiece s = s := by
  obtain ⟨stem, hs, heq⟩ := exists_stem_lastPiece s
  rcases hs with rfl | ⟨before, rfl⟩
  · rw [List.nil_append] at heq
    exact (String.toList_inj.1 heq).symm
  · rw [heq] at h
    simp at h

theorem IsStem.append {stem more : List Char} (hs : IsStem stem) (hm : IsStem more) :
    IsStem (stem ++ more) := by
  rcases hm with rfl | ⟨s, rfl⟩
  · rwa [List.append_nil]
  · exact .inr ⟨stem ++ s, (List.append_assoc ..).symm⟩

/-- The path under a directory of any text with something behind it ends in the last piece of the
text. -/
theorem exists_join_eq (base s : String) : ∃ stem, IsStem stem ∧ ∀ tail : String,
    '/' ∉ tail.toList → join base (s ++ tail) = behind stem (lastPiece s ++ tail) := by
  obtain ⟨stem, hs, heq⟩ := exists_stem_lastPiece s
  have habs (tail : String) (ht : '/' ∉ tail.toList) : isAbsolute (s ++ tail) = isAbsolute s := by
    have h := isAbsolute_behind s.toList ht
    rwa [behind, String.ofList_append, String.ofList_toList, String.ofList_toList] at h
  by_cases ha : isAbsolute s = true
  · refine ⟨stem, hs, fun tail ht => ?_⟩
    rw [← String.toList_inj, toList_behind, join, habs tail ht, if_pos ha, String.toList_append, heq,
      String.toList_append, List.append_assoc]
  · by_cases hb : base = "" ∨ endsInSeparator base = true
    · have hbase : IsStem base.toList := by
        rcases hb with rfl | hb
        · exact .inl rfl
        · have hl : base.toList.getLast? = some '/' := by simpa [endsInSeparator] using hb
          exact .inr (List.getLast?_eq_some_iff.1 hl)
      refine ⟨base.toList ++ stem, hbase.append hs, fun tail ht => ?_⟩
      rw [← String.toList_inj, toList_behind, join, habs tail ht, if_neg ha, if_pos hb]
      simp [String.toList_append, heq]
    · have hbase : IsStem (base.toList ++ ['/']) := .inr ⟨_, rfl⟩
      refine ⟨base.toList ++ ['/'] ++ stem, hbase.append hs, fun tail ht => ?_⟩
      rw [← String.toList_inj, toList_behind, join, habs tail ht, if_neg ha, if_neg hb]
      simp [String.toList_append, heq]

/-! ## Names with a dot -/

theorem trimEnd_of_ne {c : Char} {s : List Char} (h : c ≠ '/') (hd : c ≠ '.') :
    trimEnd (c :: s) = c :: s := by
  unfold trimEnd
  split
  next hs => cases hs; exact absurd rfl h
  next hs => cases hs; exact absurd rfl hd
  · rfl

theorem trimEnd_dot {c : Char} {s : List Char} (h : c ≠ '/') :
    trimEnd ('.' :: c :: s) = '.' :: c :: s := by
  unfold trimEnd
  split
  next hs => cases hs
  next hs => cases hs; exact absurd rfl h
  · rfl

/-- The last name of a path is what stands behind the last separator. -/
theorem splitLast_append {stem name : List Char} (hs : IsStem stem) (hn : '/' ∉ name) :
    splitLast (stem ++ name).reverse = (name.reverse, stem.reverse) := by
  have hall : ∀ c ∈ name.reverse, decide (c ≠ '/') = true := by
    intro c hc
    have hne : c ≠ '/' := fun he => hn (by rw [← he]; exact List.mem_reverse.1 hc)
    exact decide_eq_true hne
  unfold splitLast
  rw [List.reverse_append, List.takeWhile_append_of_pos hall, List.dropWhile_append_of_pos hall]
  rcases hs with rfl | ⟨s, rfl⟩
  · simp
  · simp

/-- A text without dots, as extensions are. -/
def IsExtension (ext : List Char) : Prop := '.' ∉ ext ∧ '/' ∉ ext

theorem splitDot_eq (stem : List Char) {ext : List Char} (he : IsExtension ext) :
    splitDot (stem ++ '.' :: ext) =
      if stem = [] then (stem ++ '.' :: ext, none) else (stem, some ext) := by
  have hall : ∀ c ∈ ext.reverse, decide (c ≠ '.') = true := by
    intro c hc
    have hne : c ≠ '.' := fun h => he.1 (by rw [← h]; exact List.mem_reverse.1 hc)
    exact decide_eq_true hne
  have hr : (stem ++ '.' :: ext).reverse = ext.reverse ++ '.' :: stem.reverse := by simp
  unfold splitDot
  rw [hr, List.takeWhile_append_of_pos hall, List.dropWhile_append_of_pos hall]
  simp

theorem splitDot_dotted {stem ext : List Char} (hs : stem ≠ []) (he : IsExtension ext) :
    splitDot (stem ++ '.' :: ext) = (stem, some ext) := by
  rw [splitDot_eq stem he, if_neg hs]

theorem name?_append {stem name : List Char} (hs : IsStem stem)
    (hn : '/' ∉ name) (ht : trimEnd (stem ++ name).reverse = (stem ++ name).reverse)
    (h₀ : name ≠ []) (h₁ : name ≠ ['.']) (h₂ : name ≠ ['.', '.']) :
    name? (String.ofList (stem ++ name)) = some name := by
  unfold name?
  rw [String.toList_ofList, ht, splitLast_append hs hn, List.reverse_reverse]
  simp [h₀, h₁, h₂]

/-- A name that ends in an extension is the last name of its path. -/
theorem name?_extended {stem base ext : List Char} (hs : IsStem stem) (hn : '/' ∉ base)
    (he : IsExtension ext) (h₀ : ext ≠ []) :
    name? (String.ofList (stem ++ (base ++ '.' :: ext))) = some (base ++ '.' :: ext) ∧
      trimEnd (stem ++ (base ++ '.' :: ext)).reverse = (stem ++ (base ++ '.' :: ext)).reverse := by
  obtain ⟨c, rest, hc⟩ := List.exists_cons_of_ne_nil (mt List.reverse_eq_nil_iff.1 h₀)
  have hm : c ∈ ext := List.mem_reverse.1 (by rw [hc]; exact List.mem_cons_self)
  have hdot : c ≠ '.' := fun h => he.1 (by rw [← h]; exact hm)
  have htrim : trimEnd (stem ++ (base ++ '.' :: ext)).reverse =
      (stem ++ (base ++ '.' :: ext)).reverse := by
    simp only [List.reverse_append, List.reverse_cons, hc, List.append_assoc, List.cons_append]
    exact trimEnd_of_ne (fun h => he.2 (by rw [← h]; exact hm)) hdot
  have hlast (h : base ++ '.' :: ext = ['.'] ∨ base ++ '.' :: ext = ['.', '.']) : False := by
    have hrev : (base ++ '.' :: ext).reverse = c :: (rest ++ '.' :: base.reverse) := by
      rw [List.reverse_append, List.reverse_cons, hc]
      simp
    rcases h with h | h
    all_goals
      rw [h] at hrev
      exact hdot (List.cons.inj hrev).1.symm
  refine ⟨name?_append hs ?_ htrim (by simp) (hlast ∘ .inl) (hlast ∘ .inr), htrim⟩
  rw [List.mem_append, List.mem_cons]
  rintro (h | h | h)
  · exact hn h
  · cases h
  · exact he.2 h

/-- The extension of a name that ends in one. A dot at the start of the name does not count. -/
theorem extension?_extended {stem base ext : List Char} (hs : IsStem stem) (hn : '/' ∉ base)
    (he : IsExtension ext) (h₀ : ext ≠ []) :
    extension? (String.ofList (stem ++ (base ++ '.' :: ext))) =
      if base = [] then none else some (String.ofList ext) := by
  unfold extension?
  rw [(name?_extended hs hn he h₀).1, Option.bind_some, splitDot_eq base he]
  by_cases hb : base = []
  · rw [if_pos hb, if_pos hb]
    rfl
  · rw [if_neg hb, if_neg hb]
    rfl

/-! ## Another extension -/

section

variable {stem : List Char} {key old : String}

theorem toList_dotted (key ext : String) :
    (key ++ "." ++ ext).toList = key.toList ++ '.' :: ext.toList := by
  simp [String.toList_append]

theorem take_behind (stem : List Char) (key old : String) :
    (behind stem (key ++ "." ++ old)).toList.take
        ((behind stem (key ++ "." ++ old)).toList.length - old.length) =
      stem ++ (key.toList ++ ['.']) := by
  have hcut : stem ++ (key.toList ++ '.' :: old.toList) =
      (stem ++ (key.toList ++ ['.'])) ++ old.toList := by simp
  rw [toList_behind, toList_dotted, hcut, List.length_append, ← String.length_toList,
    Nat.add_sub_cancel, List.take_left]

theorem trimEnd_behind_dot (stem : List Char) (hk : key ≠ "") (hn : '/' ∉ key.toList) :
    trimEnd (stem ++ (key.toList ++ ['.'])).reverse = (stem ++ (key.toList ++ ['.'])).reverse := by
  obtain ⟨c, rest, hc⟩ :=
    List.exists_cons_of_ne_nil (mt List.reverse_eq_nil_iff.1 (toList_ne_nil hk))
  have hne : c ≠ '/' := fun h =>
    hn (List.mem_reverse.1 (by rw [hc, h]; exact List.mem_cons_self))
  simp only [List.reverse_append, List.reverse_cons, List.reverse_nil, List.nil_append, hc,
    List.cons_append]
  exact trimEnd_dot hne

theorem extension?_behind (hs : IsStem stem) (hk : key ≠ "") (hn : '/' ∉ key.toList)
    (he : IsExtension old.toList) (h₀ : old ≠ "") :
    extension? (behind stem (key ++ "." ++ old)) = some old := by
  rw [behind, toList_dotted, extension?_extended hs hn he (toList_ne_nil h₀),
    if_neg (toList_ne_nil hk), String.ofList_toList]

/-- Another extension takes the place of the old one. -/
theorem withExtension_behind (hs : IsStem stem) (hk : key ≠ "") (hd : key ≠ ".")
    (hn : '/' ∉ key.toList) (he : IsExtension old.toList) (h₀ : old ≠ "") (new : String) :
    withExtension (behind stem (key ++ "." ++ old)) new = behind stem (key ++ "." ++ new) := by
  have hkey := toList_ne_nil hk
  have htrim := trimEnd_behind_dot stem hk hn
  have hname : name? (String.ofList (stem ++ (key.toList ++ ['.']))) =
      some (key.toList ++ ['.']) := by
    refine name?_append hs ?_ htrim (by simp) (by simpa using hk) ?_
    · simpa using hn
    · intro h
      have hk' : key.toList = ['.'] := List.append_inj_left' h rfl
      exact hd (String.toList_inj.1 hk')
  have hdot : splitDot (key.toList ++ ['.']) = (key.toList, some []) :=
    splitDot_dotted hkey ⟨List.not_mem_nil, List.not_mem_nil⟩
  rw [← String.toList_inj, toList_behind, toList_dotted]
  unfold withExtension
  simp only [extension?_behind hs hk hn he h₀, take_behind, hname, htrim, List.reverse_reverse, hdot]
  simp [String.toList_append]

/-- A name with nothing before its dot has no extension, so another one is added to it. -/
theorem withExtension_hidden (hs : IsStem stem) (he : IsExtension old.toList) (h₀ : old ≠ "")
    (new : String) :
    withExtension (behind stem ("" ++ "." ++ old)) new =
      behind stem ("" ++ "." ++ old ++ "." ++ new) := by
  have hne := toList_ne_nil h₀
  have hbase : '/' ∉ ([] : List Char) := List.not_mem_nil
  obtain ⟨hname, htrim⟩ := name?_extended hs hbase he hne
  have hext := extension?_extended hs hbase he hne
  rw [if_pos rfl] at hext
  have hdot := splitDot_eq [] he
  rw [if_pos rfl] at hdot
  have hl : (behind stem ("" ++ "." ++ old)).toList = stem ++ ([] ++ '.' :: old.toList) := by
    rw [toList_behind, toList_dotted]
    rfl
  have hpath : behind stem ("" ++ "." ++ old) =
      String.ofList (stem ++ ([] ++ '.' :: old.toList)) := by
    rw [← hl, String.ofList_toList]
  rw [← String.toList_inj, toList_behind]
  unfold withExtension
  rw [hpath, hext]
  simp only [String.toList_ofList, hname, htrim, List.reverse_reverse, hdot]
  simp [String.toList_append]

/-- Where the rest would be two dots, nothing is added. -/
theorem withExtension_up (hs : IsStem stem) (he : IsExtension old.toList) (h₀ : old ≠ "")
    (new : String) : withExtension (behind stem ("." ++ "." ++ old)) new = behind stem ".." := by
  have hdot : '/' ∉ ".".toList := by decide
  have htrim := trimEnd_behind_dot stem (by decide : "." ≠ "") hdot
  have hname : name? (String.ofList (stem ++ (".".toList ++ ['.']))) = none := by
    unfold name?
    rw [String.toList_ofList, htrim, splitLast_append hs (by decide), List.reverse_reverse]
    simp
  have hext := extension?_behind hs (by decide : "." ≠ "") hdot he h₀
  unfold withExtension
  simp only [hext, take_behind, hname]
  rfl

end

theorem isName_dotted {key ext : String} (hn : '/' ∉ key.toList) (he : '/' ∉ ext.toList)
    (hlong : 1 < ext.toList.length) : IsName (key ++ "." ++ ext) := by
  have hlen : 2 < (key ++ "." ++ ext).toList.length := by
    rw [toList_dotted, List.length_append, List.length_cons]
    omega
  refine ⟨?_, ?_, ?_, ?_⟩
  iterate 3
    intro h
    rw [h] at hlen
    exact absurd hlen (by decide)
  rw [toList_dotted, List.mem_append, List.mem_cons]
  rintro (h | h | h)
  · exact hn h
  · cases h
  · exact he h

theorem utf8ByteSize_behind (stem : List Char) (name : String) :
    (behind stem name).utf8ByteSize = (String.ofList stem).utf8ByteSize + name.utf8ByteSize := by
  rw [behind, String.ofList_append, String.utf8ByteSize_append, String.ofList_toList]

end Courier.Path
