import Courier.Proofs.FileSystem.Resolving

/-!
# The children of a directory

What is in a directory is what is found under its name at the directory's location (`node?_cons`).
This file says what placing, removing and stamping do to the children of a directory, and that they
leave directories where they are.
-/

namespace Courier.FileSystem

variable {fs fs' : FileSystem} {l m : Location} {path name : String} {n : Node}

/-! ## The children of a directory -/

/-- What a node is in the directory at `l`, if it is in there. -/
def child? (l : Location) (e : Location × Node) : Option (String × Node) :=
  match e with
  | (name :: parent, n) => if parent = l then some (name, n) else none
  | ([], _) => none

theorem children_eq (fs : FileSystem) (l : Location) :
    fs.children l = fs.nodes.filterMap (child? l) := rfl

theorem child?_self (l : Location) (name : String) (n : Node) :
    child? l (name :: l, n) = some (name, n) := if_pos rfl

theorem child?_of_eq_some {e : Location × Node} {c : String × Node} (h : child? l e = some c) :
    e = (c.1 :: l, c.2) := by
  obtain ⟨_ | ⟨first, parent⟩, n⟩ := e
  · cases h
  · replace h : (if parent = l then some (first, n) else none) = some c := h
    split_ifs at h with he
    cases h
    rw [he]

/-- A child of a directory is found under its name. -/
theorem node?_cons (fs : FileSystem) (l : Location) (name : String) :
    fs.node? (name :: l) = (fs.children l).lookup name := by
  unfold node?
  rw [children_eq, if_neg (List.cons_ne_nil _ _)]
  induction fs.nodes with
  | nil => rfl
  | cons e rest ih =>
    rw [List.lookup_cons, ih]
    cases hc : child? l e with
    | none =>
      have hne : (name :: l == e.1) = false := by
        rw [beq_eq_false_iff_ne]
        intro he
        have hs := child?_self l name e.2
        rw [he] at hs
        rw [hs] at hc
        cases hc
      rw [List.filterMap_cons_none hc, hne]
    | some c =>
      rw [List.filterMap_cons_some hc, List.lookup_cons, child?_of_eq_some hc]
      by_cases hn : name = c.1
      · subst hn
        simp
      · have h₁ : (name == c.1) = false := by simpa using hn
        have h₂ : (name :: l == c.1 :: l) = false := by simpa using hn
        rw [h₁, h₂]

theorem filterMap_filter_child (nodes : List (Location × Node)) (l : Location) (name : String) :
    (nodes.filter fun e => e.1 ≠ name :: l).filterMap (child? l) =
      (nodes.filterMap (child? l)).filter fun c => c.1 ≠ name := by
  induction nodes with
  | nil => rfl
  | cons e rest ih =>
    cases hc : child? l e with
    | none =>
      rw [List.filterMap_cons_none hc, ← ih]
      by_cases he : e.1 = name :: l
      · rw [List.filter_cons_of_neg (by simpa using he)]
      · rw [List.filter_cons_of_pos (by simpa using he), List.filterMap_cons_none hc]
    | some c =>
      rw [List.filterMap_cons_some hc]
      have he := child?_of_eq_some hc
      by_cases hn : c.1 = name
      · rw [List.filter_cons_of_neg (by simp [he, hn]), List.filter_cons_of_neg (by simpa using hn), ih]
      · rw [List.filter_cons_of_pos (by simp [he, hn]), List.filter_cons_of_pos (by simpa using hn),
          List.filterMap_cons_some hc, ih]

/-- What is no child of a directory does not matter to it. -/
theorem filterMap_filter_of_child?_eq_none (nodes : List (Location × Node)) {l m : Location}
    (hm : ∀ n, child? l (m, n) = none) :
    (nodes.filter fun e => e.1 ≠ m).filterMap (child? l) = nodes.filterMap (child? l) := by
  induction nodes with
  | nil => rfl
  | cons e rest ih =>
    by_cases he : e.1 = m
    · have hc : child? l e = none := by
        rw [← hm e.2, ← he]
      rw [List.filter_cons_of_neg (by simpa using he), List.filterMap_cons_none hc, ih]
    · rw [List.filter_cons_of_pos (by simpa using he), List.filterMap_cons, List.filterMap_cons, ih]

theorem children_put (fs : FileSystem) (l : Location) (name : String) (n : Node) :
    (fs.put (name :: l) n).children l =
      (name, n) :: (fs.children l).filter fun c => c.1 ≠ name := by
  rw [children_eq, children_eq, ← filterMap_filter_child]
  exact List.filterMap_cons_some (child?_self l name n)

theorem children_erase (fs : FileSystem) (l : Location) (name : String) :
    (fs.erase (name :: l)).children l = (fs.children l).filter fun c => c.1 ≠ name :=
  filterMap_filter_child fs.nodes l name

theorem child?_own (l : Location) (n : Node) : child? l (l, n) = none := by
  cases l with
  | nil => rfl
  | cons first parent => exact if_neg (List.cons_ne_self first parent).symm

theorem children_stamp (fs : FileSystem) (l : Location) : (fs.stamp l).children l = fs.children l := by
  unfold stamp
  split
  · split
    · rfl
    next n _ _ =>
      rw [children_eq, put, List.filterMap_cons_none (child?_own l _)]
      exact filterMap_filter_of_child?_eq_none fs.nodes (child?_own l)
  · rfl

theorem clock_stamp (fs : FileSystem) (l : Location) : (fs.stamp l).clock = fs.clock := by
  unfold stamp
  split
  · split <;> rfl
  · rfl

theorem clock_of_remove (hr : fs.remove path = .ok fs') : fs'.clock = fs.clock + tick := by
  unfold FileSystem.remove at hr
  cases h : fs.find path with
  | error fault =>
    rw [h] at hr
    cases hr
  | ok found =>
    obtain ⟨m, content, modified⟩ := found
    rw [h] at hr
    cases content with
    | directory => cases hr
    | file bytes =>
      obtain rfl := Except.ok.inj hr
      exact clock_stamp _ _

/-! ## Listing -/

theorem find_eq_ok_iff : fs.find path = .ok (m, n) ↔
    fs.locate path = .ok m ∧ fs.node? m = some n ∧
      (Path.endsInSeparator path = true → n.content = .directory) := by
  obtain ⟨content, modified⟩ := n
  unfold FileSystem.find
  cases hl : fs.locate path with
  | error fault =>
    refine iff_of_false (fun h => ?_) (fun h => ?_)
    · cases h
    · cases h.1
  | ok m' =>
    simp only [bind, Except.bind, Except.ok.injEq]
    constructor
    · intro h
      split at h
      · cases h
      next bytes modified hn =>
        split_ifs at h with hs
        obtain ⟨rfl, heq⟩ := Prod.mk.inj (Except.ok.inj h)
        exact ⟨rfl, heq ▸ hn, fun hs' => absurd hs' hs⟩
      next modified hn =>
        obtain ⟨rfl, heq⟩ := Prod.mk.inj (Except.ok.inj h)
        exact ⟨rfl, heq ▸ hn, fun _ => (congrArg Node.content heq).symm⟩
    · rintro ⟨rfl, hn, hs⟩
      rw [hn]
      cases content with
      | directory => rfl
      | file bytes => exact if_neg fun h => absurd (hs h) (by simp)

theorem find_eq_ok (h : fs.find path = .ok (m, n)) :
    fs.locate path = .ok m ∧ fs.node? m = some n :=
  have h := find_eq_ok_iff.1 h
  ⟨h.1, h.2.1⟩

theorem find_of_directory (h : fs.locate path = .ok l) (hd : fs.DirectoryAt l) :
    ∃ modified, fs.find path = .ok (l, ⟨.directory, modified⟩) := by
  obtain ⟨modified, hd⟩ := hd
  exact ⟨modified, find_eq_ok_iff.2 ⟨h, hd, fun _ => rfl⟩⟩

theorem list_of_directory (h : fs.locate path = .ok l) (hd : fs.DirectoryAt l) :
    fs.list path = .ok (fs.children l) := by
  obtain ⟨modified, hf⟩ := find_of_directory h hd
  unfold FileSystem.list
  rw [hf]
  rfl

/-- Only a directory can be listed. -/
theorem exists_directory_of_list {children : List (String × Node)}
    (h : fs.list path = .ok children) :
    ∃ l, fs.locate path = .ok l ∧ fs.DirectoryAt l ∧ children = fs.children l := by
  unfold FileSystem.list at h
  cases hf : fs.find path with
  | error fault =>
    rw [hf] at h
    cases h
  | ok found =>
    obtain ⟨l, content, modified⟩ := found
    rw [hf] at h
    cases content with
    | file bytes => cases h
    | directory =>
      obtain ⟨hl, hd⟩ := find_eq_ok hf
      exact ⟨l, hl, ⟨modified, hd⟩, (Except.ok.inj h).symm⟩

/-! ## Changes in a directory -/

theorem keeps_advance (fs : FileSystem) : Keeps fs fs.advance := ⟨fun _ h => h, rfl⟩

theorem keeps_put (h : ¬ fs.DirectoryAt m) (n : Node) : Keeps fs (fs.put m n) where
  directory l hl := by
    obtain ⟨modified, hd⟩ := hl
    by_cases h₀ : l = []
    · subst h₀
      exact ⟨0, rfl⟩
    · refine ⟨modified, ?_⟩
      rw [node?_put h₀, if_neg (by rintro rfl; exact h ⟨modified, hd⟩)]
      exact hd
  workingDirectory := rfl

theorem keeps_erase (h : ¬ fs.DirectoryAt m) : Keeps fs (fs.erase m) where
  directory l hl := by
    obtain ⟨modified, hd⟩ := hl
    by_cases h₀ : l = []
    · subst h₀
      exact ⟨0, rfl⟩
    · refine ⟨modified, ?_⟩
      rw [node?_erase h₀, if_neg (by rintro rfl; exact h ⟨modified, hd⟩)]
      exact hd
  workingDirectory := rfl

theorem keeps_stamp (fs : FileSystem) (m : Location) : Keeps fs (fs.stamp m) := by
  unfold stamp
  split
  next n hn =>
    split
    · exact ⟨fun _ h => h, rfl⟩
    next h₀ =>
      refine ⟨fun l hl => ?_, rfl⟩
      obtain ⟨modified, hd⟩ := hl
      by_cases hl₀ : l = []
      · subst hl₀
        exact ⟨0, rfl⟩
      · by_cases hlm : l = m
        · subst hlm
          rw [hn] at hd
          cases hd
          exact ⟨fs.clock, by rw [node?_put hl₀, if_pos rfl]⟩
        · exact ⟨modified, by rw [node?_put hl₀, if_neg hlm]; exact hd⟩
  · exact ⟨fun _ h => h, rfl⟩

theorem lookup_of_mem {α : Type} {xs : List (String × α)} (hn : (xs.map Prod.fst).Nodup)
    {x : String × α} (hx : x ∈ xs) : xs.lookup x.1 = some x.2 := by
  induction xs with
  | nil => cases hx
  | cons first rest ih =>
    rw [List.map_cons, List.nodup_cons] at hn
    rw [List.lookup_cons]
    rcases List.mem_cons.1 hx with rfl | hx
    · simp
    · have hne : (x.1 == first.1) = false := by
        rw [beq_eq_false_iff_ne]
        exact fun he => hn.1 (by rw [← he]; exact List.mem_map.2 ⟨x, hx, rfl⟩)
      rw [hne]
      exact ih hn.2 hx

end Courier.FileSystem
