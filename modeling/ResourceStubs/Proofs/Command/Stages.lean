import ResourceStubs.Command
import ResourceStubs.Proofs.Binding.ReadLayouts
import ResourceStubs.Proofs.Binding.SelectedLayouts
import ResourceStubs.Proofs.File.Writes

/-!
# The stages of a run

A run that succeeds has read its inputs, written the classes of the tables, counted the
layouts that get a class, written the interface that binding classes share, selected the
layouts again, and written their classes (`run_eq_ok_iff`).  `Stages` names what is there
in between, and `readInputs_eq_ok_iff` does the same for reading.

Layouts are looked at three times, and in between files are written.  If no layout file is
written over on the way (`LayoutsApart`), all three see the same texts
(`Stages.readText?_withInterface`, `Stages.counted_eq`).
-/

namespace ResourceStubs
namespace Command

open Java

variable {c : Command} {tree middle final : Tree} {inputs : Inputs}
  {counted selected : List LayoutData} {s : Summary}

/-- The binding classes, and the interface that they share. -/
def bindingClasses (c : Command) (selected : List LayoutData) : List CompilationUnit :=
  Stub.component :: selected.map (Stub.render c.package)

/-- The tree in which layouts are selected for writing: the interface that binding classes
share has been written. -/
def withInterface (c : Command) (tree : Tree) : Tree :=
  (Stub.component.write c.stubsOutput tree).2

/-- What stands between the stages of a run that succeeds: the inputs, the tree after the
classes of the tables, the selected layouts, and the tree at the end. -/
structure Stages (c : Command) (tree : Tree) (inputs : Inputs) (middle : Tree)
    (selected : List LayoutData) (final : Tree) : Prop where
  read : c.readInputs tree = .ok inputs
  tables : CompilationUnit.writeAll c.rClassOutput (c.tableClasses inputs) tree = (.ok (), middle)
  select : Selection.all (c.withInterface middle) inputs.layouts = .ok selected
  bindings : CompilationUnit.writeAll c.stubsOutput (c.bindingClasses selected) middle =
    (.ok (), final)

theorem withInterface_of_writeAll {u : Tree}
    (h : CompilationUnit.writeAll c.stubsOutput [Stub.component] tree = (.ok (), u)) :
    c.withInterface tree = u := by
  rw [CompilationUnit.writeAll_singleton] at h
  rw [withInterface, h]

theorem writeBindings_eq_ok_iff {layouts : List LayoutData} :
    c.writeBindings layouts middle = (.ok (), final) ↔ ∃ selected,
      Selection.all (c.withInterface middle) layouts = .ok selected ∧
      CompilationUnit.writeAll c.stubsOutput (c.bindingClasses selected) middle =
        (.ok (), final) := by
  simp only [bindingClasses, CompilationUnit.writeAll_cons_eq_ok_iff]
  unfold writeBindings withInterface
  obtain ⟨result, u⟩ := Stub.component.write c.stubsOutput middle
  cases result with
  | error e =>
      dsimp only
      constructor
      · intro h
        exact absurd h error_ne_ok
      · rintro ⟨_, -, _, h, -⟩
        exact absurd h error_ne_ok
  | ok _ =>
      dsimp only
      cases Selection.all u layouts with
      | error e =>
          dsimp only
          constructor
          · intro h
            exact absurd h error_ne_ok
          · rintro ⟨_, h, -⟩
            exact absurd h (by simp)
      | ok selected =>
          dsimp only
          constructor
          · intro h
            exact ⟨selected, rfl, u, rfl, h⟩
          · rintro ⟨selected', h, u', hu, hw⟩
            rwa [Except.ok.inj h, (Prod.mk.inj hu).2]

theorem writeOutputs_eq_ok_iff :
    c.writeOutputs inputs tree = (.ok s, final) ↔ ∃ middle counted,
      CompilationUnit.writeAll c.rClassOutput (c.tableClasses inputs) tree = (.ok (), middle) ∧
      Selection.all middle inputs.layouts = .ok counted ∧
      c.writeBindings inputs.layouts middle = (.ok (), final) ∧ s = summary inputs counted := by
  unfold writeOutputs
  obtain ⟨result, middle⟩ :=
    CompilationUnit.writeAll c.rClassOutput (c.tableClasses inputs) tree
  cases result with
  | error e =>
      dsimp only
      constructor
      · intro h
        exact absurd h error_ne_ok
      · rintro ⟨_, _, h, -⟩
        exact absurd h error_ne_ok
  | ok _ =>
      dsimp only
      cases hcount : Selection.all middle inputs.layouts with
      | error e =>
          dsimp only
          constructor
          · intro h
            exact absurd h error_ne_ok
          · rintro ⟨m, counted, hm, h, -⟩
            rw [← (Prod.mk.inj hm).2, hcount] at h
            exact absurd h (by simp)
      | ok counted =>
          dsimp only
          cases hwrite : c.writeBindings inputs.layouts middle with
          | mk result last =>
              constructor
              · intro h
                cases result with
                | error e => exact absurd h error_ne_ok
                | ok _ =>
                    obtain ⟨hs, hlast⟩ := Prod.mk.inj h
                    refine ⟨middle, counted, rfl, hcount, ?_, (Except.ok.inj hs).symm⟩
                    rw [hwrite, hlast]
              · rintro ⟨m, counted', hm, h, hw, hs⟩
                rw [← (Prod.mk.inj hm).2, hcount] at h
                obtain rfl := Except.ok.inj h
                rw [← (Prod.mk.inj hm).2, hwrite] at hw
                obtain ⟨rfl, rfl⟩ := Prod.mk.inj hw
                rw [hs]

/-- **A run succeeds when all its stages do.** -/
theorem run_eq_ok_iff :
    c.run tree = (.ok s, final) ↔ ∃ inputs middle counted selected,
      c.Stages tree inputs middle selected final ∧
      Selection.all middle inputs.layouts = .ok counted ∧ s = summary inputs counted := by
  unfold run
  cases hread : c.readInputs tree with
  | error e =>
      dsimp only
      constructor
      · intro h
        exact absurd h error_ne_ok
      · rintro ⟨inputs, middle, counted, selected, h, -⟩
        rw [h.read] at hread
        exact absurd hread (by simp)
  | ok inputs =>
      dsimp only
      rw [writeOutputs_eq_ok_iff]
      constructor
      · rintro ⟨middle, counted, htables, hcount, hbindings, hs⟩
        obtain ⟨selected, hselect, hclasses⟩ := writeBindings_eq_ok_iff.1 hbindings
        exact ⟨inputs, middle, counted, selected, ⟨hread, htables, hselect, hclasses⟩, hcount, hs⟩
      · rintro ⟨inputs', middle, counted, selected, h, hcount, hs⟩
        obtain rfl : inputs' = inputs := Except.ok.inj (h.read.symm.trans hread)
        exact ⟨middle, counted, h.tables, hcount,
          writeBindings_eq_ok_iff.2 ⟨selected, h.select, h.bindings⟩, hs⟩

/-- What stands between the stages is determined by the run. -/
theorem Stages.unique {inputs' : Inputs} {middle' final' : Tree} {selected' : List LayoutData}
    (h : c.Stages tree inputs middle selected final)
    (h' : c.Stages tree inputs' middle' selected' final') :
    inputs = inputs' ∧ middle = middle' ∧ selected = selected' := by
  obtain rfl : inputs = inputs' := Except.ok.inj (h.read.symm.trans h'.read)
  obtain rfl : middle = middle' := congrArg Prod.snd (h.tables.symm.trans h'.tables)
  exact ⟨rfl, rfl, Except.ok.inj (h.select.symm.trans h'.select)⟩

/-- **What is read**, one reading after the other. -/
theorem readInputs_eq_ok_iff :
    c.readInputs tree = .ok inputs ↔ ∃ own dependencies lines,
      TypeStore.ofFiles c.package tree c.layoutFiles = .ok own ∧
      TypeStore.ofClassInfos tree c.classInfos = .ok dependencies ∧
      Layout.readFiles c.package ⟨own, dependencies⟩ tree c.layoutFiles = .ok inputs.layouts ∧
      dependencyLines tree c.symbolLists = .ok lines ∧
      Collect.all .standard c.nonTransitive tree c.resourceFiles lines = .ok inputs.table := by
  rw [readInputs]
  simp only [bind_eq_ok_iff]
  constructor
  · rintro ⟨own, hown, dependencies, hdep, layouts, hlayouts, lines, hlines, table, htable, h⟩
    rw [← Except.ok.inj h]
    exact ⟨own, dependencies, lines, hown, hdep, hlayouts, hlines, htable⟩
  · rintro ⟨own, dependencies, lines, hown, hdep, hlayouts, hlines, htable⟩
    exact ⟨own, hown, dependencies, hdep, _, hlayouts, lines, hlines, _, htable, rfl⟩

/-! ## Inputs apart from outputs -/

/-- The paths of the classes of the tables. -/
def tablePaths (c : Command) : List Path :=
  ["R", "BR"].map fun name => CompilationUnit.pathBelow ⟨c.package, name, ""⟩ c.rClassOutput

theorem map_pathBelow_tableClasses (c : Command) (inputs : Inputs) :
    (c.tableClasses inputs).map (fun u => u.pathBelow c.rClassOutput) = c.tablePaths := rfl

/-- The paths of the source files that are written before layouts are selected for the last
time: the classes of the tables, and the interface that binding classes share. -/
def earlyPaths (c : Command) : List Path :=
  c.tablePaths ++ [Stub.component.pathBelow c.stubsOutput]

/-- The path of the binding class with a name. -/
def classPath (c : Command) (className : String) : Path :=
  CompilationUnit.pathBelow ⟨Stub.packageOf c.package, className, ""⟩ c.stubsOutput

theorem pathBelow_render (c : Command) (d : LayoutData) :
    (Stub.render c.package d).pathBelow c.stubsOutput = c.classPath d.className :=
  CompilationUnit.pathBelow_congr rfl rfl _

/-- Are the layout files at other places than what is written before layouts are selected
for the last time? -/
def LayoutsApart (c : Command) (tree : Tree) : Prop :=
  ∀ file ∈ c.layoutFiles, ∀ path ∈ c.earlyPaths, tree.fileAt? path ≠ tree.fileAt? file

/-- The interface is the first binding class that is written. -/
theorem Stages.writeInterface (h : c.Stages tree inputs middle selected final) :
    CompilationUnit.writeAll c.stubsOutput [Stub.component] middle =
        (.ok (), c.withInterface middle) ∧
      CompilationUnit.writeAll c.stubsOutput (selected.map (Stub.render c.package))
        (c.withInterface middle) = (.ok (), final) := by
  obtain ⟨u, hu, hclasses⟩ := CompilationUnit.writeAll_cons_eq_ok_iff.1 h.bindings
  rw [← CompilationUnit.writeAll_singleton] at hu
  rw [withInterface_of_writeAll hu]
  exact ⟨hu, hclasses⟩

/-- **No layout file that is apart from them is changed** by the classes of the tables and
the interface. -/
theorem Stages.readText?_withInterface (h : c.Stages tree inputs middle selected final)
    (hapart : c.LayoutsApart final) {file : Path} (hfile : file ∈ c.layoutFiles) {text : String}
    (hread : tree.readText? file = some text) :
    middle.readText? file = some text ∧ (c.withInterface middle).readText? file = some text := by
  obtain ⟨hone, hclasses⟩ := h.writeInterface
  obtain ⟨other, hother, -⟩ := Tree.exists_hasFile hread
  -- the layout file and the written one have the places at the end that they have now
  have hmiddle : middle.readText? file = some text := by
    refine CompilationUnit.readText?_of_writeAll h.tables hread fun u hu => ?_
    obtain ⟨v, -, hv⟩ := CompilationUnit.exists_readText?_of_writeAll h.tables u hu
    obtain ⟨place, hplace, -⟩ := Tree.exists_hasFile hv
    have hother' := CompilationUnit.hasFile_of_writeAll h.tables hother
    have hmem : u.pathBelow c.rClassOutput ∈ c.tablePaths := by
      rw [← map_pathBelow_tableClasses c inputs]
      exact List.mem_map_of_mem hu
    have hne := hapart file hfile _ (List.mem_append_left _ hmem)
    rwa [(CompilationUnit.hasFile_of_writeAll h.bindings hplace).fileAt?,
      (CompilationUnit.hasFile_of_writeAll h.bindings hother').fileAt?, ← hplace.fileAt?,
      ← hother'.fileAt?] at hne
  refine ⟨hmiddle, CompilationUnit.readText?_of_writeAll hone hmiddle fun u hu => ?_⟩
  obtain rfl := List.mem_singleton.1 hu
  obtain ⟨v, -, hv⟩ := CompilationUnit.exists_readText?_of_writeAll hone _ hu
  obtain ⟨place, hplace, -⟩ := Tree.exists_hasFile hv
  have hother' := CompilationUnit.hasFile_of_writeAll hone
    (CompilationUnit.hasFile_of_writeAll h.tables hother)
  have hne := hapart file hfile _ (List.mem_append_right _ (List.mem_singleton_self _))
  rwa [(CompilationUnit.hasFile_of_writeAll hclasses hplace).fileAt?,
    (CompilationUnit.hasFile_of_writeAll hclasses hother').fileAt?, ← hplace.fileAt?,
    ← hother'.fileAt?] at hne

/-- The selection is the same in a tree in which the layout files read the same. -/
theorem selection_congr {t' : Tree} (hread : c.readInputs tree = .ok inputs)
    (htext : ∀ file ∈ c.layoutFiles, t'.readText? file = tree.readText? file) :
    Selection.all t' inputs.layouts = Selection.all tree inputs.layouts := by
  obtain ⟨_, _, _, -, -, hlayouts, -, -⟩ := readInputs_eq_ok_iff.1 hread
  have hfile : ∀ d ∈ inputs.layouts, ∀ file, d.file = some file →
      t'.read file = tree.read file := by
    intro d hd file hdfile
    obtain ⟨first, hfirst, hd'⟩ := (Layout.mem_readFiles_iff hlayouts).1 hd
    rw [(Layout.layout_of_readFile hd').2, Option.some.injEq] at hdfile
    rw [Tree.read, Tree.read, htext file (hdfile ▸ List.mem_of_find?_eq_some hfirst)]
  have hstep : ∀ layouts : List LayoutData, (∀ d ∈ layouts, d ∈ inputs.layouts) → ∀ before,
      layouts.foldlM (Selection.selectMarked t') before =
        layouts.foldlM (Selection.selectMarked tree) before := by
    intro layouts hsub
    induction layouts with
    | nil => exact fun before => rfl
    | cons d layouts ih =>
        intro before
        have hd : Selection.selectMarked t' before d = Selection.selectMarked tree before d := by
          rw [Selection.selectMarked, Selection.selectMarked]
          cases hdfile : d.file with
          | none => rfl
          | some file =>
              dsimp only
              rw [hfile d (hsub d List.mem_cons_self) file hdfile]
        rw [List.foldlM_cons, List.foldlM_cons, hd]
        exact congrArg _ (funext fun after =>
          ih (fun e he => hsub e (List.mem_cons_of_mem _ he)) after)
  rw [Selection.all, Selection.all, hstep _ (fun d hd => hd)]

/-- **The layouts that are counted are those that are selected**, if none of their files is
written over in between. -/
theorem Stages.counted_eq (h : c.Stages tree inputs middle selected final)
    (hapart : c.LayoutsApart final) : Selection.all middle inputs.layouts = .ok selected := by
  obtain ⟨own, _, _, hown, -⟩ := readInputs_eq_ok_iff.1 h.read
  have htext : ∀ file ∈ c.layoutFiles, ∃ text, tree.readText? file = some text :=
    (TypeStore.ofFiles_eq_ok_iff.1 hown).1
  have hmiddle : Selection.all middle inputs.layouts = Selection.all tree inputs.layouts := by
    refine selection_congr h.read fun file hfile => ?_
    obtain ⟨text, htext⟩ := htext file hfile
    rw [(h.readText?_withInterface hapart hfile htext).1, htext]
  have hopen : Selection.all (c.withInterface middle) inputs.layouts =
      Selection.all tree inputs.layouts := by
    refine selection_congr h.read fun file hfile => ?_
    obtain ⟨text, htext⟩ := htext file hfile
    rw [(h.readText?_withInterface hapart hfile htext).2, htext]
  rw [hmiddle, ← hopen, h.select]

/-- A run whose layout files are apart says how many layouts it has selected. -/
theorem Stages.run_eq (h : c.Stages tree inputs middle selected final)
    (hapart : c.LayoutsApart final) : c.run tree = (.ok (summary inputs selected), final) :=
  run_eq_ok_iff.2 ⟨inputs, middle, selected, selected, h, h.counted_eq hapart, rfl⟩

end Command
end ResourceStubs
