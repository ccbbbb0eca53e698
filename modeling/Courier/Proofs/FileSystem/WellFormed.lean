import Courier.Proofs.FileSystem.Footprint

/-!
# Well-formed file systems

In a well-formed file system every location is listed once and is a name in a directory. Where a path
leads, something can be (`WellFormed.canHold_of_locate`), so that every operation leaves such a file
system well-formed.
-/

namespace Courier.FileSystem

variable {fs fs' : FileSystem} {l m d : Location} {path source target name : String}
  {bytes : Bytes} {n : Node} {P : Location → Prop}

/-- Something can be at a location: its names are names of files, and it is held by a directory. -/
structure CanHold (fs : FileSystem) (l : Location) : Prop where
  named : ∀ name ∈ l, Named name
  held : fs.DirectoryAt l.tail

/-- Every location is listed once, and everything is where it can be. -/
structure WellFormed (fs : FileSystem) : Prop where
  distinct : fs.Distinct
  placed : ∀ l n, fs.node? l = some n → fs.CanHold l

instance (name : String) : Decidable (Named name) :=
  decidable_of_iff ((name ≠ "" ∧ name ≠ "." ∧ name ≠ ".." ∧ '/' ∉ name.toList) ∧
      '\x00' ∉ name.toList ∧ name.utf8ByteSize ≤ maxName)
    ⟨fun ⟨⟨nonempty, here, up, separator⟩, nul, short⟩ =>
      ⟨⟨nonempty, here, up, separator⟩, nul, short⟩,
    fun ⟨⟨nonempty, here, up, separator⟩, nul, short⟩ =>
      ⟨⟨nonempty, here, up, separator⟩, nul, short⟩⟩

instance (fs : FileSystem) (l : Location) : Decidable (fs.DirectoryAt l) :=
  decidable_of_iff _ directoryAt_iff.symm

instance (fs : FileSystem) (l : Location) : Decidable (fs.CanHold l) :=
  decidable_of_iff ((∀ name ∈ l, Named name) ∧ fs.DirectoryAt l.tail)
    ⟨fun ⟨named, held⟩ => ⟨named, held⟩, fun ⟨named, held⟩ => ⟨named, held⟩⟩

namespace WellFormed

/-- It is enough that the listed locations are different and that something can be at each. -/
theorem of_nodes (h : (fs.nodes.map Prod.fst).Nodup ∧ ∀ e ∈ fs.nodes, fs.CanHold e.1) :
    fs.WellFormed := by
  refine ⟨h.1, fun l n hn => ?_⟩
  unfold node? at hn
  split_ifs at hn with hl
  · subst hl
    exact ⟨fun _ hx => absurd hx List.not_mem_nil, directoryAt_nil fs⟩
  · obtain ⟨before, after, heq, -⟩ := List.lookup_eq_some_iff.1 hn
    exact h.2 (l, n) (heq ▸ List.mem_append_right _ List.mem_cons_self)

/-- A change that keeps all directories may place things where something can be. -/
theorem of_keeps (hk : Keeps fs fs') (hd : fs'.Distinct)
    (hp : ∀ l n, fs'.node? l = some n → fs.CanHold l) : fs'.WellFormed :=
  ⟨hd, fun l n hn => ⟨(hp l n hn).named, hk.directory _ (hp l n hn).held⟩⟩

theorem of_confined (h : fs.WellFormed) (hc : Confined P fs fs') (hP : ∀ l, P l → fs.CanHold l) :
    fs'.WellFormed := by
  refine of_keeps hc.keeps (hc.distinct h.distinct) fun l n hn => ?_
  by_cases hl : P l
  · exact hP l hl
  · have hcontent := hc.content l hl
    rw [hn] at hcontent
    obtain ⟨n', hn', -⟩ := Option.map_eq_some_iff.1 hcontent.symm
    exact h.placed l n' hn'

theorem of_clock (h : fs.WellFormed) (time : Int) : ({ fs with clock := time }).WellFormed :=
  h.of_confined (confined_clock (fun _ => False) fs time) fun _ hl => hl.elim

theorem canHold_of_directoryAt (h : fs.WellFormed) (hd : fs.DirectoryAt l) : fs.CanHold l := by
  obtain ⟨time, hn⟩ := hd
  exact h.placed l _ hn

theorem canHold_cons (h : fs.WellFormed) (hd : fs.DirectoryAt d) (hn : Named name) :
    fs.CanHold (name :: d) := by
  refine ⟨fun x hx => ?_, hd⟩
  rcases List.mem_cons.1 hx with rfl | hx
  · exact hn
  · exact (h.canHold_of_directoryAt hd).named x hx

theorem canHold_of_enter (h : fs.WellFormed) (h₀ : name ≠ "") (hs : '/' ∉ name.toList)
    (hnul : '\x00' ∉ name.toList) (he : fs.enter l name = .ok m) : fs.CanHold m := by
  have hd := directoryAt_of_enter he
  rw [enter_of_directory hd] at he
  split_ifs at he with hhere hup hlong
  · obtain rfl := Except.ok.inj he
    exact h.canHold_of_directoryAt hd
  · obtain rfl := Except.ok.inj he
    exact h.canHold_of_directoryAt (h.canHold_of_directoryAt hd).held
  · obtain rfl := Except.ok.inj he
    exact h.canHold_cons hd ⟨⟨h₀, hhere, hup, hs⟩, hnul, Nat.not_lt.1 hlong⟩

/-- Where a path leads, something can be. -/
theorem canHold_of_locate (h : fs.WellFormed) (hl : fs.locate path = .ok m) : fs.CanHold m := by
  obtain ⟨hnul, hne⟩ := of_locate hl
  have walk (names : List String) (l) (hsub : ∀ name ∈ names, name ∈ Path.names path)
      (h₀ : names = [] → fs.CanHold l) (hw : names.foldlM fs.enter l = .ok m) : fs.CanHold m := by
    induction names generalizing l with
    | nil =>
      obtain rfl := Except.ok.inj hw
      exact h₀ rfl
    | cons name more ih =>
      rw [List.foldlM_cons] at hw
      cases he : fs.enter l name with
      | error fault =>
        rw [he] at hw
        cases hw
      | ok l' =>
        rw [he] at hw
        obtain ⟨hname, hs, hin⟩ := Path.of_mem_names (hsub name List.mem_cons_self)
        have hl' := h.canHold_of_enter hname hs (fun hm => hnul (hin hm)) he
        exact ih l' (fun x hx => hsub x (List.mem_cons_of_mem _ hx)) (fun _ => hl') hw
  unfold FileSystem.locate at hl
  split_ifs at hl with _ ha
  · exact walk _ _ (fun _ hx => hx)
      (fun _ => ⟨fun _ hx => absurd hx List.not_mem_nil, directoryAt_nil fs⟩) hl
  · refine walk _ _ (fun _ hx => hx) (fun h₀ => ?_) hl
    exact absurd h₀ (Path.names_ne_nil hne (Bool.eq_false_iff.2 ha))

theorem nodup_children (h : fs.WellFormed) (l : Location) :
    ((fs.children l).map Prod.fst).Nodup := by
  have hsub : ((fs.children l).map fun c => c.1 :: l).Sublist (fs.nodes.map Prod.fst) := by
    rw [children_eq]
    induction fs.nodes with
    | nil => exact .slnil
    | cons e rest ih =>
      cases hc : child? l e with
      | none =>
        rw [List.filterMap_cons_none hc]
        exact ih.cons _
      | some c =>
        rw [List.filterMap_cons_some hc, List.map_cons, List.map_cons, child?_of_eq_some hc]
        exact ih.cons_cons _
  have hnodup := h.distinct.sublist hsub
  rw [List.Nodup, List.pairwise_map] at hnodup ⊢
  exact hnodup.imp fun hne he => hne (by rw [he])

theorem mem_children_iff (h : fs.WellFormed) : (name, n) ∈ fs.children l ↔
    fs.node? (name :: l) = some n := by
  rw [node?_cons]
  constructor
  · exact lookup_of_mem (h.nodup_children l)
  · intro hl
    obtain ⟨before, after, heq, -⟩ := List.lookup_eq_some_iff.1 hl
    rw [heq]
    exact List.mem_append_right _ List.mem_cons_self

/-! ## Operations -/

theorem write (h : fs.WellFormed) (hw : fs.write path bytes = .ok fs') : fs'.WellFormed := by
  obtain ⟨m, hl, -, -, hc⟩ := write_spec hw
  exact h.of_confined hc fun l hm => hm ▸ h.canHold_of_locate hl

theorem remove (h : fs.WellFormed) (hr : fs.remove path = .ok fs') : fs'.WellFormed := by
  obtain ⟨m, -, -, hl, -, -, hc⟩ := remove_spec hr
  exact h.of_confined hc fun l hm => hm ▸ h.canHold_of_locate hl

theorem rename (h : fs.WellFormed) (hr : fs.rename source target = .ok fs') : fs'.WellFormed := by
  obtain ⟨l, m, -, -, hl, hm, -, -, -, -, hc⟩ := rename_spec hr
  refine h.of_confined hc ?_
  rintro x (rfl | rfl)
  · exact h.canHold_of_locate hl
  · exact h.canHold_of_locate hm

theorem makeDirectory (h : fs.WellFormed) (hm : fs.makeDirectory path = .ok fs') :
    fs'.WellFormed := by
  unfold FileSystem.makeDirectory at hm
  cases hl : fs.locate path with
  | error fault =>
    rw [hl] at hm
    cases hm
  | ok m =>
    simp only [hl, bind, Except.bind, pure, Except.pure] at hm
    split at hm
    · cases hm
    next hnone =>
      obtain rfl := Except.ok.inj hm
      have hno : ¬ fs.advance.DirectoryAt m := by
        rintro ⟨time, hd⟩
        exact absurd (hnone.symm.trans hd) (by simp)
      have hd : fs.advance.Distinct := h.distinct
      refine of_keeps ((keeps_advance fs).trans ((keeps_put hno _).trans (keeps_stamp _ _)))
        (distinct_stamp (distinct_put hd m _) _) fun l n hn => ?_
      replace hn : ((fs.advance.put m ⟨.directory, fs.advance.clock⟩).stamp m.tail).node? l =
        some n := hn
      have hcontent := content_stamp (fs.advance.put m ⟨.directory, fs.advance.clock⟩) m.tail l
      rw [hn] at hcontent
      obtain ⟨n', hn', -⟩ := Option.map_eq_some_iff.1 hcontent.symm
      by_cases h₀ : l = []
      · exact h₀ ▸ h.canHold_of_directoryAt (directoryAt_nil fs)
      · rw [node?_put h₀] at hn'
        split_ifs at hn' with hlm
        · exact hlm ▸ h.canHold_of_locate hl
        · exact h.placed l n' hn'

theorem ensureDirectory (h : fs.WellFormed) (path : String) :
    (fs.ensureDirectory path).1.WellFormed := by
  unfold FileSystem.ensureDirectory
  cases hm : fs.makeDirectory path with
  | error fault => exact h
  | ok fs' => exact h.makeDirectory hm

theorem makeDirectories (h : fs.WellFormed) (path : String) :
    (fs.makeDirectories path).1.WellFormed := by
  have upTo (fuel : Nat) (fs) (h : FileSystem.WellFormed fs) (path) :
      (makeDirectoriesUpTo fuel fs path).1.WellFormed := by
    induction fuel generalizing path with
    | zero => exact h
    | succ fuel ih =>
      unfold makeDirectoriesUpTo
      split
      · exact h
      · split
        next parent _ _ =>
          have hparent := ih parent
          cases hup : makeDirectoriesUpTo fuel fs parent with
          | mk fs' result =>
            rw [hup] at hparent
            cases result with
            | error fault => exact hparent
            | ok _ => exact hparent.ensureDirectory path
        · exact h.ensureDirectory path
  exact upTo _ fs h path

end WellFormed
end Courier.FileSystem
