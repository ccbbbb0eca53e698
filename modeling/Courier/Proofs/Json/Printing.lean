import Courier.Json.Record
import Courier.Proofs.Json.Written

/-!
# Documents that were printed

`Written j` says that a document is made of escaped strings and of natural numbers. Such a document is
found again in its text, with what follows behind it (`value?_print`), and `Json.parse?` reads it back
(`parse?_print`). `record?_zip` gives the fields of a record that was written with all its names.
-/

namespace Courier.Json

variable {j : Json} {fuel : Nat} {rest : Bytes}

/-! ## Documents -/

/-- A document of escaped strings and natural numbers. -/
inductive Written : Json → Prop
  | null : Written .null
  | bool (value : Bool) : Written (.bool value)
  | ofNat (n : Nat) : Written (.ofNat n)
  | string (b : Bytes) : Written (.string (escape b))
  | array (elements : List Json) (all : ∀ j ∈ elements, Written j) : Written (.array elements)
  | object (members : List (Bytes × Json)) (names : ∀ p ∈ members, ∃ b, p.1 = escape b)
      (all : ∀ p ∈ members, Written p.2) : Written (.object members)

theorem Written.ofText (s : String) : Written (.ofText s) := .string _

/-- A document that is found again in its text, if the fuel lasts. -/
def IsFound (j : Json) : Prop :=
  ∀ (fuel : Nat) (rest : Bytes), 2 * (print j).length ≤ fuel → EndsNumber rest →
    value? fuel (print j ++ rest) = some (j, rest)

/-! ## First bytes -/

/-- A value can begin with this byte. -/
structure Opens (b : UInt8) : Prop where
  solid : isBlank b = false
  bracket : b ≠ ascii ']'

theorem skipBlanks_cons {b : UInt8} (h : isBlank b = false) (s : Bytes) :
    skipBlanks (b :: s) = b :: s := by
  simp [skipBlanks, h]

theorem opens_of_isDigit {b : UInt8} (h : isDigit b = true) : Opens b := by
  have hb : 48 ≤ b.toNat ∧ b.toNat ≤ 57 := by
    simpa [isDigit, UInt8.le_iff_toNat_le] using h
  have ne {c : UInt8} (hc : ¬ (48 ≤ c.toNat ∧ c.toNat ≤ 57)) : b ≠ c := by
    rintro rfl
    exact hc hb
  refine ⟨?_, ne (by decide)⟩
  unfold isBlank
  simp [ne (c := 0x20) (by decide), ne (c := 0x0A) (by decide), ne (c := 0x09) (by decide),
    ne (c := 0x0D) (by decide)]

/-- The text of a value begins with a byte that can begin a value. -/
theorem exists_print (h : Written j) : ∃ b more, print j = b :: more ∧ Opens b := by
  cases h with
  | null => exact ⟨ascii 'n', _, by rw [print]; rfl, by decide, by decide⟩
  | bool value =>
    cases value with
    | true => exact ⟨ascii 't', _, by rw [print]; rfl, by decide, by decide⟩
    | false => exact ⟨ascii 'f', _, by rw [print]; rfl, by decide, by decide⟩
  | ofNat n =>
    obtain ⟨b, more, hl, hb, -⟩ := exists_natLiteral n
    exact ⟨b, more, by rw [Json.ofNat, print, hl], opens_of_isDigit hb⟩
  | string b => exact ⟨ascii '"', _, by rw [print]; rfl, by decide, by decide⟩
  | array elements => exact ⟨ascii '[', _, by rw [print], by decide, by decide⟩
  | object members => exact ⟨ascii '\x7b', _, by rw [print], by decide, by decide⟩

/-! ## Scalars -/

theorem word?_append (word : String) (rest : Bytes) :
    word? word (Bytes.ofText word ++ rest) = some rest := by
  unfold word?
  rw [if_pos (List.isPrefixOf_iff_prefix.2 (List.prefix_append _ _)), List.drop_left]

theorem word?_of_ne {word : String} {b c : UInt8} {more s : Bytes}
    (hw : Bytes.ofText word = c :: more) (h : b ≠ c) : word? word (b :: s) = none := by
  unfold word?
  rw [hw]
  simp [List.isPrefixOf, h.symm]

theorem scalar?_null (rest : Bytes) : scalar? (Bytes.ofText "null" ++ rest) = some (.null, rest) := by
  unfold scalar?
  rw [word?_append]

theorem scalar?_bool (value : Bool) (rest : Bytes) :
    scalar? (print (.bool value) ++ rest) = some (.bool value, rest) := by
  cases value with
  | true =>
    have hn : word? "null" (Bytes.ofText "true" ++ rest) = none :=
      word?_of_ne (b := ascii 't') (c := ascii 'n') rfl (by decide)
    rw [print]
    unfold scalar?
    rw [hn, word?_append]
  | false =>
    have hn : word? "null" (Bytes.ofText "false" ++ rest) = none :=
      word?_of_ne (b := ascii 'f') (c := ascii 'n') rfl (by decide)
    have ht : word? "true" (Bytes.ofText "false" ++ rest) = none :=
      word?_of_ne (b := ascii 'f') (c := ascii 't') rfl (by decide)
    rw [print]
    unfold scalar?
    rw [hn, ht, word?_append]

theorem scalar?_ofNat (n : Nat) (hr : EndsNumber rest) :
    scalar? (natLiteral n ++ rest) = some (.ofNat n, rest) := by
  have hnum := number?_natLiteral n hr
  obtain ⟨b, more, hl, hb, -⟩ := exists_natLiteral n
  have none_of (word : String) (c : UInt8) {s : Bytes} (hw : Bytes.ofText word = c :: s)
      (hc : isDigit c = false) : word? word (natLiteral n ++ rest) = none := by
    rw [hl]
    refine word?_of_ne hw ?_
    rintro rfl
    rw [hb] at hc
    cases hc
  unfold scalar?
  rw [none_of "null" (ascii 'n') rfl (by decide), none_of "true" (ascii 't') rfl (by decide),
    none_of "false" (ascii 'f') rfl (by decide), hnum]
  rfl

/-! ## Steps of the reader -/

theorem value?_scalar {b : UInt8} {s : Bytes} (hb : isBlank b = false)
    (h : b ≠ ascii '"' ∧ b ≠ ascii '[' ∧ b ≠ ascii '\x7b') :
    value? (fuel + 1) (b :: s) = scalar? (b :: s) := by
  rw [value?, skipBlanks_cons hb]
  simp only [if_neg h.1, if_neg h.2.1, if_neg h.2.2]

theorem value?_string (b rest : Bytes) :
    value? (fuel + 1) (quoted (escape b) ++ rest) = some (.string (escape b), rest) := by
  have hq : quoted (escape b) ++ rest = ascii '"' :: (escape b ++ ascii '"' :: rest) := by
    simp [quoted]
  rw [hq, value?, skipBlanks_cons (by decide)]
  simp only [if_true, stringBody?_escape, Option.map_some]

theorem value?_array {b : UInt8} {s : Bytes} (hb : Opens b) :
    value? (fuel + 1) (ascii '[' :: b :: s) =
      (elements? fuel (b :: s)).map fun p => (.array p.1, p.2) := by
  have h : ascii '[' ≠ ascii '"' := by decide
  rw [value?, skipBlanks_cons (by decide)]
  simp only [if_neg h, if_true, skipBlanks_cons hb.solid, if_neg hb.bracket]

theorem value?_array_nil (rest : Bytes) :
    value? (fuel + 1) (ascii '[' :: ascii ']' :: rest) = some (.array [], rest) := by
  have h : ascii '[' ≠ ascii '"' := by decide
  rw [value?, skipBlanks_cons (by decide)]
  simp only [if_neg h, if_true, skipBlanks_cons (show isBlank (ascii ']') = false by decide)]

theorem value?_object (s : Bytes) :
    value? (fuel + 1) (ascii '\x7b' :: ascii '"' :: s) =
      (members? fuel (ascii '"' :: s)).map fun p => (.object p.1, p.2) := by
  have h₁ : ascii '\x7b' ≠ ascii '"' := by decide
  have h₂ : ascii '\x7b' ≠ ascii '[' := by decide
  have h₃ : ascii '"' ≠ ascii '\x7d' := by decide
  rw [value?, skipBlanks_cons (by decide)]
  simp only [if_neg h₁, if_neg h₂, if_true, if_neg h₃,
    skipBlanks_cons (show isBlank (ascii '"') = false by decide)]

theorem value?_object_nil (rest : Bytes) :
    value? (fuel + 1) (ascii '\x7b' :: ascii '\x7d' :: rest) = some (.object [], rest) := by
  have h₁ : ascii '\x7b' ≠ ascii '"' := by decide
  have h₂ : ascii '\x7b' ≠ ascii '[' := by decide
  rw [value?, skipBlanks_cons (by decide)]
  simp only [if_neg h₁, if_neg h₂, if_true,
    skipBlanks_cons (show isBlank (ascii '\x7d') = false by decide)]

theorem elements?_of_value? {s rest : Bytes} {b : UInt8}
    (h : value? fuel s = some (j, b :: rest)) (hb : isBlank b = false) :
    elements? (fuel + 1) s =
      if b = ascii ',' then (elements? fuel rest).map fun p => (j :: p.1, p.2)
      else if b = ascii ']' then some ([j], rest)
      else none := by
  rw [elements?, h]
  simp only [skipBlanks_cons hb]

theorem members?_of_value? {name s rest : Bytes} {b : UInt8}
    (h : value? fuel s = some (j, b :: rest)) (hb : isBlank b = false) :
    members? (fuel + 1) (quoted (escape name) ++ ascii ':' :: s) =
      if b = ascii ',' then (members? fuel rest).map fun p => ((escape name, j) :: p.1, p.2)
      else if b = ascii '\x7d' then some ([(escape name, j)], rest)
      else none := by
  have hq : quoted (escape name) ++ ascii ':' :: s =
      ascii '"' :: (escape name ++ ascii '"' :: ascii ':' :: s) := by
    simp [quoted]
  rw [hq, members?, skipBlanks_cons (by decide)]
  simp only [ne_eq, not_true_eq_false, if_false, stringBody?_escape,
    skipBlanks_cons (show isBlank (ascii ':') = false by decide), h, skipBlanks_cons hb]

/-! ## Whole documents -/

theorem endsNumber_cons {b : UInt8} (h : b ∈ [ascii ',', ascii ']', ascii '\x7d'])
    (rest : Bytes) : EndsNumber (b :: rest) := by
  have key : ∀ b ∈ [ascii ',', ascii ']', ascii '\x7d'],
      isDigit b = false ∧ b ≠ ascii '.' ∧ b ≠ ascii 'e' ∧ b ≠ ascii 'E' := by decide +kernel
  intro c hc
  cases hc
  exact key b h

/-- Elements are found again up to their bracket. -/
theorem elements?_print {element : Json} {more : List Json}
    (all : ∀ j ∈ element :: more, IsFound j)
    (hf : 2 * (printElements (element :: more)).length + 1 ≤ fuel) (rest : Bytes) :
    elements? fuel (printElements (element :: more) ++ ascii ']' :: rest) =
      some (element :: more, rest) := by
  obtain ⟨fuel, rfl⟩ : ∃ n, fuel = n + 1 := ⟨fuel - 1, by omega⟩
  have hfound := all element List.mem_cons_self
  induction more generalizing element fuel with
  | nil =>
    simp only [printElements] at hf ⊢
    have hv := hfound fuel (ascii ']' :: rest) (by omega) (endsNumber_cons (by decide) rest)
    rw [elements?_of_value? hv (by decide), if_neg (by decide), if_pos rfl]
  | cons next more ih =>
    have hp : printElements (element :: next :: more) =
        print element ++ ascii ',' :: printElements (next :: more) := by simp [printElements]
    rw [hp, List.length_append, List.length_cons] at hf
    obtain ⟨fuel, rfl⟩ : ∃ n, fuel = n + 1 := ⟨fuel - 1, by omega⟩
    rw [hp, List.append_assoc, List.cons_append]
    have hv := hfound (fuel + 1) (ascii ',' :: (printElements (next :: more) ++ ascii ']' :: rest))
      (by omega) (endsNumber_cons (by decide) _)
    have hm : ∀ j ∈ next :: more, IsFound j := fun j hj => all j (List.mem_cons_of_mem _ hj)
    rw [elements?_of_value? hv (by decide), if_pos rfl,
      ih hm fuel (by omega) (hm next List.mem_cons_self)]
    rfl

/-- Members are found again up to their brace. -/
theorem members?_print {member : Bytes × Json} {more : List (Bytes × Json)}
    (names : ∀ p ∈ member :: more, ∃ b, p.1 = escape b)
    (all : ∀ p ∈ member :: more, IsFound p.2)
    (hf : 2 * (printMembers (member :: more)).length + 1 ≤ fuel) (rest : Bytes) :
    members? fuel (printMembers (member :: more) ++ ascii '\x7d' :: rest) =
      some (member :: more, rest) := by
  obtain ⟨fuel, rfl⟩ : ∃ n, fuel = n + 1 := ⟨fuel - 1, by omega⟩
  have hfound := all member List.mem_cons_self
  obtain ⟨b, hb⟩ := names member List.mem_cons_self
  induction more generalizing member fuel b with
  | nil =>
    obtain ⟨name, value⟩ := member
    obtain rfl : name = escape b := hb
    replace hfound : IsFound value := hfound
    simp only [printMembers, printMember, List.length_append, List.length_cons, List.append_assoc,
      List.cons_append] at hf ⊢
    have hv := hfound fuel (ascii '\x7d' :: rest) (by omega) (endsNumber_cons (by decide) rest)
    rw [members?_of_value? hv (by decide), if_neg (by decide), if_pos rfl]
  | cons next more ih =>
    obtain ⟨name, value⟩ := member
    obtain rfl : name = escape b := hb
    replace hfound : IsFound value := hfound
    have hp : printMembers ((escape b, value) :: next :: more) =
        quoted (escape b) ++ ascii ':' :: (print value ++ ascii ',' :: printMembers (next :: more)) := by
      simp [printMembers, printMember]
    rw [hp] at hf
    simp only [List.length_append, List.length_cons] at hf
    obtain ⟨fuel, rfl⟩ : ∃ n, fuel = n + 1 := ⟨fuel - 1, by omega⟩
    rw [hp]
    simp only [List.append_assoc, List.cons_append]
    have hv := hfound (fuel + 1)
      (ascii ',' :: (printMembers (next :: more) ++ ascii '\x7d' :: rest)) (by omega)
      (endsNumber_cons (by decide) _)
    have hn : ∀ p ∈ next :: more, ∃ b, p.1 = escape b := fun p hp =>
      names p (List.mem_cons_of_mem _ hp)
    have hm : ∀ p ∈ next :: more, IsFound p.2 := fun p hp => all p (List.mem_cons_of_mem _ hp)
    obtain ⟨b', hb'⟩ := hn next List.mem_cons_self
    rw [members?_of_value? hv (by decide), if_pos rfl,
      ih hn hm fuel (by omega) (hm next List.mem_cons_self) b' hb']
    rfl

/-- A value takes at least one unit of fuel. -/
theorem Written.isFound (h : Written j)
    (hv : ∀ fuel rest, 2 * (print j).length ≤ fuel + 1 → EndsNumber rest →
      value? (fuel + 1) (print j ++ rest) = some (j, rest)) : IsFound j := by
  intro fuel rest hf hr
  obtain ⟨b, more, hp, -⟩ := exists_print h
  have hl := congrArg List.length hp
  rw [List.length_cons] at hl
  obtain ⟨fuel, rfl⟩ : ∃ n, fuel = n + 1 := ⟨fuel - 1, by omega⟩
  exact hv fuel rest hf hr

theorem exists_printElements {element : Json} (h : Written element) (more : List Json) :
    ∃ b s, printElements (element :: more) = b :: s ∧ Opens b := by
  obtain ⟨b, s, hp, hb⟩ := exists_print h
  cases more with
  | nil => exact ⟨b, s, by rw [printElements, hp], hb⟩
  | cons next more =>
    exact ⟨b, s ++ ascii ',' :: printElements (next :: more), by simp [printElements, hp], hb⟩

theorem exists_printMembers (member : Bytes × Json) (more : List (Bytes × Json)) :
    ∃ s, printMembers (member :: more) = ascii '"' :: s := by
  obtain ⟨name, value⟩ := member
  cases more with
  | nil =>
    exact ⟨name ++ ascii '"' :: ascii ':' :: print value,
      by simp [printMembers, printMember, quoted]⟩
  | cons next more =>
    exact ⟨name ++ ascii '"' :: ascii ':' :: (print value ++ ascii ',' :: printMembers (next :: more)),
      by simp [printMembers, printMember, quoted]⟩

/-- A document is found again in its text. -/
theorem value?_print (h : Written j) : IsFound j := by
  induction h with
  | null =>
    refine Written.isFound .null fun fuel rest _ _ => ?_
    rw [print]
    exact (value?_scalar (b := ascii 'n') (by decide) (by decide)).trans (scalar?_null rest)
  | bool value =>
    refine Written.isFound (.bool value) fun fuel rest _ _ => ?_
    rw [← scalar?_bool value rest]
    cases value with
    | true => rw [print]; exact value?_scalar (b := ascii 't') (by decide) (by decide)
    | false => rw [print]; exact value?_scalar (b := ascii 'f') (by decide) (by decide)
  | ofNat n =>
    refine Written.isFound (.ofNat n) fun fuel rest _ hr => ?_
    rw [Json.ofNat, print, ← Json.ofNat, ← scalar?_ofNat n hr]
    obtain ⟨b, more, hl, hb, -⟩ := exists_natLiteral n
    have ne {c : UInt8} (hc : isDigit c = false) : b ≠ c := by
      rintro rfl
      rw [hb] at hc
      cases hc
    rw [hl]
    exact value?_scalar (opens_of_isDigit hb).solid ⟨ne (by decide), ne (by decide), ne (by decide)⟩
  | string b =>
    refine Written.isFound (.string b) fun fuel rest _ _ => ?_
    rw [print]
    exact value?_string b rest
  | array elements all ih =>
    refine Written.isFound (.array elements all) fun fuel rest hf _ => ?_
    rw [print] at hf ⊢
    cases elements with
    | nil => exact value?_array_nil rest
    | cons element more =>
      have hlast : 2 * (printElements (element :: more)).length + 1 ≤ fuel := by
        simp only [List.length_cons, List.length_append, List.length_nil] at hf
        omega
      have he := elements?_print ih hlast rest
      obtain ⟨b, s, hs, hb⟩ := exists_printElements (all element List.mem_cons_self) more
      simp only [hs, List.cons_append, List.append_assoc, List.nil_append] at he ⊢
      rw [value?_array hb, he]
      rfl
  | object members names all ih =>
    refine Written.isFound (.object members names all) fun fuel rest hf _ => ?_
    rw [print] at hf ⊢
    cases members with
    | nil => exact value?_object_nil rest
    | cons member more =>
      have hlast : 2 * (printMembers (member :: more)).length + 1 ≤ fuel := by
        simp only [List.length_cons, List.length_append, List.length_nil] at hf
        omega
      have he := members?_print names ih hlast rest
      obtain ⟨s, hs⟩ := exists_printMembers member more
      simp only [hs, List.cons_append, List.append_assoc, List.nil_append] at he ⊢
      rw [value?_object, he]
      rfl

/-- A document is read back. -/
theorem parse?_print (h : Written j) : parse? (print j) = some j := by
  have hv := value?_print h (2 * (print j).length + 2) [] (by omega) fun b hb => by cases hb
  rw [List.append_nil] at hv
  unfold parse?
  rw [hv]
  exact if_pos rfl

/-! ## Records -/

/-- Names in which nothing has to be escaped. -/
def ArePlain (names : List String) : Prop :=
  ∀ name ∈ names, escape (Bytes.ofText name) = Bytes.ofText name

instance (names : List String) : Decidable (ArePlain names) :=
  inferInstanceAs (Decidable (∀ name ∈ names, _))

theorem Written.record (names : List String) (values : List Json) (hplain : ArePlain names)
    (all : ∀ value ∈ values, Written value) :
    Written (.object ((names.map Bytes.ofText).zip values)) := by
  refine .object _ (fun p hp => ?_) fun p hp => all p.2 (List.of_mem_zip hp).2
  obtain ⟨name, hn, he⟩ := List.mem_map.1 (List.of_mem_zip hp).1
  exact ⟨Bytes.ofText name, by rw [← he, hplain name hn]⟩

theorem lookup_zip_eq_none {names : List String} {name : String} (h : name ∉ names)
    (values : List Json) : (names.zip values).lookup name = none := by
  refine List.lookup_eq_none_iff.2 fun p hp => ?_
  have hm : p.1 ∈ names := (List.of_mem_zip hp).1
  simpa using fun he : name = p.1 => h (by rw [he]; exact hm)

/-- A record under known names gives its fields. -/
theorem record?_zip {names : List String} {extra : Bool} (hplain : ArePlain names)
    (hnodup : names.Nodup) (values : List Json) :
    record? names extra (.object ((names.map Bytes.ofText).zip values)) =
      some (names.zip values) := by
  have named {known : List String} (hsub : ∀ name ∈ names, name ∈ known) :
      named? known extra ((names.map Bytes.ofText).zip values) = some (names.zip values) := by
    induction names generalizing values with
    | nil => rfl
    | cons name more ih =>
      cases values with
      | nil => rfl
      | cons value values =>
        obtain ⟨hn, hd⟩ := List.nodup_cons.1 hnodup
        refine named?_cons (text?_of_escape (hplain name List.mem_cons_self))
          (hsub name List.mem_cons_self) ?_ (lookup_zip_eq_none hn values)
        exact ih (fun n h => hplain n (List.mem_cons_of_mem _ h)) hd values
          fun n h => hsub n (List.mem_cons_of_mem _ h)
  exact named fun _ h => h

end Courier.Json
