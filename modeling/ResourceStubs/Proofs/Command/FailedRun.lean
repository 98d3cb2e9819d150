import ResourceStubs.Proofs.Command.IncludeClosure

/-!
# Runs that fail

A run reads its inputs before it writes, but this is not the whole story: which layouts get
a class is looked up in their files when other classes have been written already, and then
once more.  These late readings cannot fail.  What can be read once can be read after any
number of writes, even if it is written over (`exists_selection_of_read`).

So a run that fails has written nothing, or it could not write something
(`readInputs_eq_error_or_unwritable`).  Where writing never fails, only the first is left
(`run_eq_error_of_neverFails`).
-/

namespace ResourceStubs

open Java

namespace Tree

variable {paths : Path → Prop} {t m m' : Tree}

/-- What a tree can become when directories are made for the paths, and texts are written
at them. -/
inductive Reaches (paths : Path → Prop) (t : Tree) : Tree → Prop
  | start : Reaches paths t t
  | create {m m' : Tree} {path : Path} (h : Reaches paths t m) (hpath : paths path)
      (hm : m.createDirectories (path.parent?.getD ⟨""⟩) = .ok m') : Reaches paths t m'
  | write {m m' : Tree} {path : Path} {s : String} (h : Reaches paths t m) (hpath : paths path)
      (hm : m.writeText path s = some m') : Reaches paths t m'

/-- Can the directories of the paths be made at any time, and texts be written in them? -/
structure NeverFails (t : Tree) (paths : Path → Prop) : Prop where
  create : ∀ m, t.Reaches paths m → ∀ path, paths path →
    ∃ m', m.createDirectories (path.parent?.getD ⟨""⟩) = .ok m'
  write : ∀ m, t.Reaches paths m → ∀ path, paths path → m.Created (path.parent?.getD ⟨""⟩) →
    ∀ s, ∃ m', m.writeText path s = some m'

/-- Where writing never fails, source files are written. -/
theorem NeverFails.exists_writeAll (h : t.NeverFails paths) {dir : Path}
    {us : List CompilationUnit} (hus : ∀ u ∈ us, paths (u.pathBelow dir))
    (hm : t.Reaches paths m) :
    ∃ m', CompilationUnit.writeAll dir us m = (.ok (), m') ∧ t.Reaches paths m' := by
  induction us generalizing m with
  | nil => exact ⟨m, rfl, hm⟩
  | cons u us ih =>
      obtain ⟨hu, hus⟩ := List.forall_mem_cons.1 hus
      obtain ⟨m₁, hm₁⟩ := h.create m hm _ hu
      have hreach₁ := hm.create hu hm₁
      obtain ⟨m₂, hm₂⟩ := h.write m₁ hreach₁ _ hu (created_of_create hm₁) u.source
      obtain ⟨m', hm', hreach⟩ := ih hus (hreach₁.write hu hm₂)
      exact ⟨m', CompilationUnit.writeAll_cons_eq_ok_iff.2
        ⟨m₂, CompilationUnit.write_eq_ok_iff.2 ⟨m₁, hm₁, hm₂⟩, hm'⟩, hreach⟩

/-- Writing at paths that are ready keeps the shape of the tree. -/
theorem Reaches.sameShape (hready : ∀ path, paths path → Command.IsReady t path)
    (h : t.Reaches paths m) : t.SameShape m := by
  induction h with
  | start => exact SameShape.refl t
  | create _ hpath hm ih =>
      rw [(ih.created _ (hready _ hpath).1).create_eq_self] at hm
      rwa [← Except.ok.inj hm]
  | write _ _ hm ih =>
      obtain ⟨place, hplace, rfl⟩ := writeText_eq_some_iff.1 hm
      exact ih.trans (hplace.sameShape_put _)

/-- At paths that are ready, writing never fails. -/
theorem neverFails_of_isReady (hready : ∀ path, paths path → Command.IsReady t path) :
    t.NeverFails paths where
  create m hm path hpath :=
    ⟨m, ((hm.sameShape hready).created _ (hready path hpath).1).create_eq_self⟩
  write m hm path hpath _ s := by
    obtain ⟨-, place, hplace⟩ := hready path hpath
    exact ⟨_, writeText_eq_some_iff.2
      ⟨place, ((hm.sameShape hready).writable _ _).2 hplace, rfl⟩⟩

end Tree

/-- A write is done, or says that it cannot be done. -/
theorem Java.CompilationUnit.write_ok_or_unwritable (dir : Path) (u : CompilationUnit)
    (t : Tree) : (∃ t', u.write dir t = (.ok (), t')) ∨
      ∃ path t', u.write dir t = (.error (.unwritable path), t') := by
  unfold CompilationUnit.write
  dsimp only
  cases t.createDirectories ((u.pathBelow dir).parent?.getD ⟨""⟩) with
  | error t₁ => exact Or.inr ⟨_, _, rfl⟩
  | ok t₁ =>
      dsimp only
      cases t₁.writeText (u.pathBelow dir) u.source with
      | none => exact Or.inr ⟨_, _, rfl⟩
      | some t₂ => exact Or.inl ⟨_, rfl⟩

theorem Java.CompilationUnit.writeAll_ok_or_unwritable (dir : Path) (us : List CompilationUnit)
    (t : Tree) : (∃ t', CompilationUnit.writeAll dir us t = (.ok (), t')) ∨
      ∃ path t', CompilationUnit.writeAll dir us t = (.error (.unwritable path), t') := by
  induction us generalizing t with
  | nil => exact Or.inl ⟨t, rfl⟩
  | cons u us ih =>
      rw [writeAll_cons]
      rcases write_ok_or_unwritable dir u t with ⟨t₁, hu⟩ | ⟨path, t₁, hu⟩
      · rw [hu]
        exact ih t₁
      · rw [hu]
        exact Or.inr ⟨path, t₁, rfl⟩

/-- What can be read before source files are written can be read afterwards. -/
theorem Java.CompilationUnit.exists_readText?_of_read {dir : Path} {us : List CompilationUnit}
    {t t' : Tree} (h : CompilationUnit.writeAll dir us t = (.ok (), t')) {path : Path}
    (hread : ∃ s, t.readText? path = some s) : ∃ s, t'.readText? path = some s := by
  obtain ⟨s, hs⟩ := hread
  rcases readText?_or_of_writeAll h hs with hs | ⟨u, -, hs⟩
  · exact ⟨s, hs⟩
  · exact ⟨u.source, hs⟩

namespace Command

variable {c : Command} {tree middle final : Tree} {inputs : Inputs} {e : Failure}

/-- **Layouts can be selected in every tree in which their files can be read**, whatever
is in them by then. -/
theorem exists_selection_of_read {t : Tree} (hread : c.readInputs tree = .ok inputs)
    (hkeep : ∀ file, (∃ s, tree.readText? file = some s) → ∃ s, t.readText? file = some s) :
    ∃ selected, Selection.all t inputs.layouts = .ok selected := by
  obtain ⟨_, _, _, -, -, hlayouts, -, -⟩ := readInputs_eq_ok_iff.1 hread
  refine ⟨_, (Selection.all_eq_ok_iff (Layout.nodup_readFiles hlayouts)).2
    ⟨fun d hd file hfile => hkeep file ?_, rfl⟩⟩
  obtain ⟨first, -, hfirst⟩ := (Layout.mem_readFiles_iff hlayouts).1 hd
  obtain ⟨contents, hcontents, -⟩ := Layout.readFile_eq_ok_iff.1 hfirst
  rw [(Layout.layout_of_readFile hfirst).2] at hfile
  exact ⟨contents, by rw [← Option.some.inj hfile, hcontents]⟩

/-- When the classes of the tables have been written, only a write can fail. -/
theorem writeBindings_ok_or_unwritable (hread : c.readInputs tree = .ok inputs)
    (htables : CompilationUnit.writeAll c.rClassOutput (c.tableClasses inputs) tree =
      (.ok (), middle)) :
    (∃ t, c.writeBindings inputs.layouts middle = (.ok (), t)) ∨
      ∃ path t, c.writeBindings inputs.layouts middle = (.error (.unwritable path), t) := by
  unfold writeBindings
  rcases CompilationUnit.writeAll_ok_or_unwritable c.stubsOutput [Stub.component] middle with
    ⟨t, ht⟩ | ⟨path, t, ht⟩
  · obtain ⟨selected, hselect⟩ := exists_selection_of_read hread fun file hfile =>
      CompilationUnit.exists_readText?_of_read ht
        (CompilationUnit.exists_readText?_of_read htables hfile)
    rw [CompilationUnit.writeAll_singleton] at ht
    rw [ht]
    dsimp only
    rw [hselect]
    exact CompilationUnit.writeAll_ok_or_unwritable _ _ _
  · rw [CompilationUnit.writeAll_singleton] at ht
    rw [ht]
    exact Or.inr ⟨path, t, rfl⟩

/-- When the inputs have been read, only a write can fail. -/
theorem writeOutputs_ok_or_unwritable (hread : c.readInputs tree = .ok inputs) :
    (∃ s t, c.writeOutputs inputs tree = (.ok s, t)) ∨
      ∃ path t, c.writeOutputs inputs tree = (.error (.unwritable path), t) := by
  unfold writeOutputs
  rcases CompilationUnit.writeAll_ok_or_unwritable c.rClassOutput (c.tableClasses inputs) tree with
    ⟨middle, htables⟩ | ⟨path, t, htables⟩
  · obtain ⟨counted, hcount⟩ := exists_selection_of_read hread fun file hfile =>
      CompilationUnit.exists_readText?_of_read htables hfile
    rw [htables]
    dsimp only
    rw [hcount]
    dsimp only
    rcases writeBindings_ok_or_unwritable hread htables with ⟨t, ht⟩ | ⟨path, t, ht⟩
    · rw [ht]
      exact Or.inl ⟨_, t, rfl⟩
    · rw [ht]
      exact Or.inr ⟨path, t, rfl⟩
  · rw [htables]
    exact Or.inr ⟨path, t, rfl⟩

/-- **A run fails while it reads, or because it cannot write.**  In the first case the tree
is as it was. -/
theorem readInputs_eq_error_or_unwritable (h : c.run tree = (.error e, final)) :
    (c.readInputs tree = .error e ∧ final = tree) ∨ ∃ path, e = .unwritable path := by
  unfold run at h
  cases hread : c.readInputs tree with
  | error e' =>
      rw [hread] at h
      obtain ⟨he, hfinal⟩ := Prod.mk.inj h
      exact Or.inl ⟨by rw [Except.error.inj he], hfinal.symm⟩
  | ok inputs =>
      rw [hread] at h
      rcases writeOutputs_ok_or_unwritable hread with ⟨s, t, hout⟩ | ⟨path, t, hout⟩
      · exact absurd (h.symm.trans hout) error_ne_ok
      · exact Or.inr ⟨path, Except.error.inj (Prod.mk.inj (h.symm.trans hout)).1⟩

/-- The paths at which a run tries to write. -/
inductive WritesAt (c : Command) (tree : Tree) : Path → Prop
  | early {path : Path} (h : path ∈ c.earlyPaths) : WritesAt c tree path
  | binding {inputs : Inputs} {middle : Tree} {selected : List LayoutData} {d : LayoutData}
      (hread : c.readInputs tree = .ok inputs)
      (htables : CompilationUnit.writeAll c.rClassOutput (c.tableClasses inputs) tree =
        (.ok (), middle))
      (hselect : Selection.all (c.withInterface middle) inputs.layouts = .ok selected)
      (hd : d ∈ selected) : WritesAt c tree (c.classPath d.className)

/-- **Where writing never fails, a run succeeds as soon as its inputs can be read.** -/
theorem exists_run_of_neverFails (hread : c.readInputs tree = .ok inputs)
    (hwrites : tree.NeverFails (c.WritesAt tree)) :
    ∃ s final, c.run tree = (.ok s, final) := by
  have htablePaths : ∀ u ∈ c.tableClasses inputs, c.WritesAt tree (u.pathBelow c.rClassOutput) := by
    intro u hu
    refine .early (List.mem_append_left _ ?_)
    rw [← map_pathBelow_tableClasses c inputs]
    exact List.mem_map_of_mem hu
  obtain ⟨middle, htables, hmiddle⟩ := hwrites.exists_writeAll htablePaths .start
  obtain ⟨counted, hcount⟩ := exists_selection_of_read hread fun file hfile =>
    CompilationUnit.exists_readText?_of_read htables hfile
  have hinterfacePath : ∀ u ∈ [Stub.component], c.WritesAt tree (u.pathBelow c.stubsOutput) :=
    List.forall_mem_singleton.2
      (.early (List.mem_append_right _ (List.mem_singleton_self _)))
  obtain ⟨t, hinterface, ht⟩ := hwrites.exists_writeAll hinterfacePath hmiddle
  obtain ⟨selected, hselect⟩ := exists_selection_of_read hread fun file hfile =>
    CompilationUnit.exists_readText?_of_read hinterface
      (CompilationUnit.exists_readText?_of_read htables hfile)
  rw [← withInterface_of_writeAll hinterface] at hselect
  have hclassPaths : ∀ v ∈ selected.map (Stub.render c.package),
      c.WritesAt tree (v.pathBelow c.stubsOutput) := by
    intro v hv
    obtain ⟨d, hd, rfl⟩ := List.mem_map.1 hv
    rw [pathBelow_render]
    exact .binding hread htables hselect hd
  obtain ⟨final, hclasses, -⟩ := hwrites.exists_writeAll hclassPaths ht
  rw [CompilationUnit.writeAll_singleton] at hinterface
  exact ⟨_, final, run_eq_ok_iff.2 ⟨inputs, middle, counted, selected,
    ⟨hread, htables, hselect, CompilationUnit.writeAll_cons_eq_ok_iff.2 ⟨t, hinterface, hclasses⟩⟩,
    hcount, rfl⟩⟩

/-- **A failing run leaves no output.**  Where creating directories and writing files never
fail, a run that fails has failed to read its inputs, and the tree is as it was. -/
theorem run_eq_error_of_neverFails {c : Command} {tree final : Tree} {e : Failure}
    (h : c.run tree = (.error e, final)) (hwrites : tree.NeverFails (c.WritesAt tree)) :
    final = tree ∧ c.readInputs tree = .error e := by
  cases hread : c.readInputs tree with
  | error e' =>
      rw [run, hread] at h
      obtain ⟨he, hfinal⟩ := Prod.mk.inj h
      exact ⟨hfinal.symm, by rw [Except.error.inj he]⟩
  | ok inputs =>
      obtain ⟨s, final', hrun⟩ := exists_run_of_neverFails hread hwrites
      exact absurd (h.symm.trans hrun) error_ne_ok

/-! ## A list of symbols that is not there -/

/-- The variants of a layout, with a list of symbols that is not there. -/
def withoutSymbols : Command :=
  { onVariants plainFirst with symbolLists := [⟨"none.txt"⟩] }

/-- The layouts can be read, and the list of symbols cannot. -/
theorem readInputs_withoutSymbols :
    withoutSymbols.readInputs variants = .error (.unreadable ⟨"none.txt"⟩) := by
  obtain ⟨own, hown, hget⟩ := ownKnows_variants (.refl _)
  have htype : LayoutTypes.get? ⟨own, .empty⟩ "a" = some (LayoutData.localClass "p" "a") := by
    rw [LayoutTypes.get?, hget, Option.some_or]
  obtain ⟨hplain, hland, hincluder⟩ := readFile_variants htype
  have hlayouts := Layout.readFiles_eq_ok_iff.2
    ⟨_, mapM_eq_ok_iff.2 (.cons hplain (.cons hland (.cons hincluder .nil))), rfl⟩
  have hlines : dependencyLines variants withoutSymbols.symbolLists =
      .error (.unreadable ⟨"none.txt"⟩) := by
    have hlies : variants.LiesIn ⟨"none.txt"⟩ [] "none.txt" := by decide
    have hnone : variants.readText? ⟨"none.txt"⟩ = none := by
      refine Option.eq_none_iff_forall_ne_some.2 fun text htext => ?_
      obtain ⟨place, hplace, hfind⟩ := Tree.readText?_eq_some_iff.1 htext
      rw [hlies.fileAt?_of_none rfl, Option.some.injEq] at hplace
      have hvacant : variants.find? (variants.workingDirectory ++ [] ++ ["none.txt"]) = none := rfl
      rw [← hplace, hvacant] at hfind
      exact absurd hfind (by simp)
    have hread : variants.read ⟨"none.txt"⟩ = .error (.unreadable ⟨"none.txt"⟩) := by
      rw [Tree.read, hnone]
    show ([(⟨"none.txt"⟩ : Path)].mapM variants.read >>= _) = _
    rw [List.mapM_cons, hread]
    rfl
  show (TypeStore.ofFiles "p" variants plainFirst >>= _) = _
  rw [hown]
  show (Layout.readFiles "p" ⟨own, .empty⟩ variants plainFirst >>= _) = _
  rw [plainFirst, hlayouts]
  show (dependencyLines variants withoutSymbols.symbolLists >>= _) = _
  rw [hlines]
  rfl

/-- Nothing is written when the list of symbols is not there. -/
theorem run_withoutSymbols : variants.NeverFails (withoutSymbols.WritesAt variants) ∧
    withoutSymbols.run variants = (.error (.unreadable ⟨"none.txt"⟩), variants) := by
  have hwrites : variants.NeverFails (withoutSymbols.WritesAt variants) := by
    refine Tree.neverFails_of_isReady fun path hpath => ?_
    cases hpath with
    | early h =>
        obtain ⟨_, -, hout⟩ := isOutput_earlyPaths plainFirst path h
        exact hout.1
    | binding hread _ _ _ =>
        rw [readInputs_withoutSymbols] at hread
        exact absurd hread (by simp)
  have hrun : withoutSymbols.run variants =
      (.error (.unreadable ⟨"none.txt"⟩), (withoutSymbols.run variants).2) := by
    rw [run, readInputs_withoutSymbols]
  refine ⟨hwrites, ?_⟩
  rw [hrun, (run_eq_error_of_neverFails hrun hwrites).1]

end Command
end ResourceStubs
