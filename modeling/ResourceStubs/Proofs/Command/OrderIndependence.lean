import ResourceStubs.Proofs.Binding.BindableNames
import ResourceStubs.Proofs.Command.IncludeClosure
import ResourceStubs.Proofs.Java.SourcePath
import ResourceStubs.Proofs.Symbol.CollectionOrder

/-!
# The order of the inputs

Two commands that differ in the order of their resource files and layout files read the
same: the same table, since files are merged in the order of their paths, and the same
layouts in another order, as long as every layout keeps its first file.  From there on the
order of the layouts matters nowhere but in the order of the writes, and binding classes
in one directory may be written in any order.

`exists_run_of_rearranges` puts this together.  It says nothing about two selected layouts
whose classes come to lie in one file, nor about classes that stand in different
directories; the latter takes a class name with a slash in it (`parent?_classPath_congr`).
-/

namespace ResourceStubs
namespace Command

open Java

variable {c c' : Command} {tree middle final : Tree} {inputs : Inputs}
  {selected : List LayoutData} {s : Summary}

/-- The second command has the inputs of the first in another order, and every layout has
the same first file in both. -/
structure Rearranges (c c' : Command) : Prop where
  package : c'.package = c.package
  classInfos : c'.classInfos = c.classInfos
  symbolLists : c'.symbolLists = c.symbolLists
  nonTransitive : c'.nonTransitive = c.nonTransitive
  rClassOutput : c'.rClassOutput = c.rClassOutput
  stubsOutput : c'.stubsOutput = c.stubsOutput
  resourceFiles : c.resourceFiles.Perm c'.resourceFiles
  layoutFiles : c.layoutFiles.Perm c'.layoutFiles
  firstFile? : ∀ layout, Layout.firstFile? c'.layoutFiles layout =
    Layout.firstFile? c.layoutFiles layout

/-- Do the classes of the selected layouts stand in one directory, and do those that share
a file have one text? -/
structure ClassesApart (c : Command) (final : Tree) (selected : List LayoutData) : Prop where
  directory : ∀ d ∈ selected, ∀ e ∈ selected,
    (c.classPath d.className).parent? = (c.classPath e.className).parent?
  source : ∀ d ∈ selected, ∀ e ∈ selected,
    final.fileAt? (c.classPath d.className) = final.fileAt? (c.classPath e.className) →
      (Stub.render c.package d).source = (Stub.render c.package e).source

/-- Classes whose names have no slash stand in one directory. -/
theorem parent?_classPath_congr {className className' : String} (h : '/' ∉ className.toList)
    (h' : '/' ∉ className'.toList) :
    (c.classPath className).parent? = (c.classPath className').parent? :=
  CompilationUnit.parent?_pathBelow_congr h h' _ _ _ _

/-- The same layouts are read, in another order. -/
theorem exists_readFiles_of_perm {package : String} {types types' : LayoutTypes}
    {files files' : List Path} {layouts : List LayoutData} (htypes : types.get? = types'.get?)
    (hperm : files.Perm files')
    (hfirst : ∀ layout, Layout.firstFile? files' layout = Layout.firstFile? files layout)
    (h : Layout.readFiles package types tree files = .ok layouts) :
    ∃ layouts', Layout.readFiles package types' tree files' = .ok layouts' ∧
      layouts.Perm layouts' := by
  have hread : Layout.readFile package types = Layout.readFile package types' :=
    Layout.readFile_congr htypes
  obtain ⟨parsed, hparsed, -⟩ := Layout.readFiles_eq_ok_iff.1 h
  obtain ⟨parsed', hparsed'⟩ :
      ∃ parsed', files'.mapM (Layout.readFile package types' tree) = .ok parsed' := by
    refine exists_mapM_eq_ok fun file hfile => ?_
    obtain ⟨d, -, hd⟩ := exists_of_mapM_eq_ok hparsed (hperm.mem_iff.2 hfile)
    exact ⟨d, by rw [← hread, hd]⟩
  have h' := Layout.readFiles_eq_ok_iff.2 ⟨parsed', hparsed', rfl⟩
  refine ⟨_, h', ?_⟩
  rw [List.perm_ext_iff_of_nodup (.of_map _ (Layout.nodup_readFiles h))
    (.of_map _ (Layout.nodup_readFiles h'))]
  intro d
  rw [Layout.mem_readFiles_iff h, Layout.mem_readFiles_iff h', hfirst, hread]

/-- **The same is read**, with the layouts in another order. -/
theorem Rearranges.exists_readInputs (hr : c.Rearranges c')
    (h : c.readInputs tree = .ok inputs) :
    ∃ inputs', c'.readInputs tree = .ok inputs' ∧ inputs'.table = inputs.table ∧
      inputs.layouts.Perm inputs'.layouts := by
  obtain ⟨own, dependencies, lines, hown, hdep, hlayouts, hlines, htable⟩ :=
    readInputs_eq_ok_iff.1 h
  obtain ⟨own', hown', hget⟩ := TypeStore.exists_ofFiles_of_perm hr.layoutFiles hown
  have htypes : LayoutTypes.get? ⟨own, dependencies⟩ = LayoutTypes.get? ⟨own', dependencies⟩ := by
    funext layout
    rw [LayoutTypes.get?, LayoutTypes.get?, hget]
  obtain ⟨layouts', hlayouts', hperm⟩ :=
    exists_readFiles_of_perm htypes hr.layoutFiles hr.firstFile? hlayouts
  refine ⟨⟨layouts', inputs.table⟩, readInputs_eq_ok_iff.2
    ⟨own', dependencies, lines, ?_, ?_, ?_, ?_, ?_⟩, rfl, hperm⟩
  · rw [hr.package, hown']
  · rw [hr.classInfos, hdep]
  · rw [hr.package, hlayouts']
  · rw [hr.symbolLists, hlines]
  · rw [hr.nonTransitive]
    exact Collect.all_eq_of_perm hr.resourceFiles htable

theorem Rearranges.tableClasses_eq (hr : c.Rearranges c') {inputs' : Inputs}
    (htable : inputs'.table = inputs.table) (hlayouts : inputs.layouts.Perm inputs'.layouts) :
    c'.tableClasses inputs' = c.tableClasses inputs := by
  rw [tableClasses, tableClasses, hr.package, htable,
    BrClass.render_of_perm c.package hlayouts.symm]

theorem summary_of_perm {inputs' : Inputs} {counted counted' : List LayoutData}
    (htable : inputs'.table = inputs.table) (hlayouts : inputs.layouts.Perm inputs'.layouts)
    (hcounted : counted.Perm counted') :
    summary inputs counted = summary inputs' counted' := by
  rw [summary, summary, htable, hlayouts.length_eq, hcounted.length_eq,
    (hlayouts.flatMap_right LayoutData.bindables).length_eq]

/-- **Binding classes may be written in any order.**  The interface that they share is the
first in every order. -/
theorem exists_writeAll_bindingClasses {selected' : List LayoutData}
    (hperm : selected.Perm selected')
    (h : CompilationUnit.writeAll c.stubsOutput (c.bindingClasses selected) tree =
      (.ok (), final))
    (hapart : c.ClassesApart final selected) :
    ∃ final', CompilationUnit.writeAll c.stubsOutput (c.bindingClasses selected') tree =
      (.ok (), final') ∧ final.SameFiles final' := by
  obtain ⟨t, hcomponent, hclasses⟩ := CompilationUnit.writeAll_cons_eq_ok_iff.1 h
  have hdir : ∀ u ∈ selected.map (Stub.render c.package),
      ∀ v ∈ selected.map (Stub.render c.package),
        u.directoryBelow c.stubsOutput = v.directoryBelow c.stubsOutput := by
    intro u hu v hv
    obtain ⟨d, hd, rfl⟩ := List.mem_map.1 hu
    obtain ⟨e, he, rfl⟩ := List.mem_map.1 hv
    rw [CompilationUnit.directoryBelow, CompilationUnit.directoryBelow, pathBelow_render,
      pathBelow_render, hapart.directory d hd e he]
  have hsource : ∀ u ∈ selected.map (Stub.render c.package),
      ∀ v ∈ selected.map (Stub.render c.package),
        final.fileAt? (u.pathBelow c.stubsOutput) = final.fileAt? (v.pathBelow c.stubsOutput) →
          u.source = v.source := by
    intro u hu v hv hplace
    obtain ⟨d, hd, rfl⟩ := List.mem_map.1 hu
    obtain ⟨e, he, rfl⟩ := List.mem_map.1 hv
    rw [pathBelow_render, pathBelow_render] at hplace
    exact hapart.source d hd e he hplace
  obtain ⟨final', hfinal', hfiles⟩ := CompilationUnit.sameFiles_of_perm
    (hperm.map (Stub.render c.package)) hdir hclasses hsource
  exact ⟨final', CompilationUnit.writeAll_cons_eq_ok_iff.2 ⟨t, hcomponent, hfinal'⟩, hfiles⟩

/-- **The order of the inputs does not matter.**  Let a run succeed, and let the classes
that it writes be apart.  With its inputs in another order, in which every layout has the
same first file, the run succeeds as well; it has the same summary, and leaves the same
files with the same contents. -/
theorem exists_run_of_rearranges {c c' : Command} {tree final : Tree} {s : Summary}
    (h : c.run tree = (.ok s, final)) (hr : c.Rearranges c')
    (hapart : ∀ inputs middle selected, c.Stages tree inputs middle selected final →
      c.ClassesApart final selected) :
    ∃ final', c'.run tree = (.ok s, final') ∧ final.SameFiles final' := by
  obtain ⟨inputs, middle, counted, selected, hs, hcount, rfl⟩ := run_eq_ok_iff.1 h
  obtain ⟨inputs', hread, htable, hlayouts⟩ := hr.exists_readInputs hs.read
  obtain ⟨_, _, _, -, -, hreadFiles, -, -⟩ := readInputs_eq_ok_iff.1 hs.read
  obtain ⟨counted', hcount', hcounted⟩ :=
    Selection.exists_all_of_perm hlayouts (Layout.nodup_readFiles hreadFiles) hcount
  obtain ⟨selected', hselect, hselected⟩ :=
    Selection.exists_all_of_perm hlayouts (Layout.nodup_readFiles hreadFiles) hs.select
  obtain ⟨final', hwrite, hfiles⟩ :=
    exists_writeAll_bindingClasses hselected hs.bindings (hapart _ _ _ hs)
  have hbindings : c'.bindingClasses selected' = c.bindingClasses selected' := by
    rw [bindingClasses, bindingClasses, hr.package]
  have hinterface : c'.withInterface middle = c.withInterface middle := by
    rw [withInterface, withInterface, hr.stubsOutput]
  refine ⟨final', run_eq_ok_iff.2 ⟨inputs', middle, counted', selected', ⟨hread, ?_, ?_, ?_⟩,
    hcount', ?_⟩, hfiles⟩
  · rw [hr.rClassOutput, hr.tableClasses_eq htable hlayouts, hs.tables]
  · rw [hinterface, hselect]
  · rw [hr.stubsOutput, hbindings, hwrite]
  · exact summary_of_perm htable hlayouts hcounted

/-! ## Two variants in another order -/

/-- **The order of the variants of one layout matters.**  With the marked variant of `a`
first, `a` gets a class, and with the other variant first it does not. -/
theorem stubs_of_variants : markedFirst.Perm plainFirst ∧ ∃ s s' final final',
    (onVariants markedFirst).run variants = (.ok s, final) ∧
    (onVariants plainFirst).run variants = (.ok s', final') ∧ s.stubs = 2 ∧ s'.stubs = 1 := by
  obtain ⟨inputs, middle, final, hs, hapart, -⟩ := exists_stages_markedFirst
  obtain ⟨inputs', middle', final', hs', hapart', -, -⟩ := exists_stages_plainFirst
  exact ⟨.swap _ _ _, _, _, final, final', hs.run_eq hapart, hs'.run_eq hapart', rfl, rfl⟩

/-- The layout that includes `a` before the variants of `a`. -/
def includerFirst : List Path :=
  [⟨"layout/b.xml"⟩, ⟨"layout-land/a.xml"⟩, ⟨"layout/a.xml"⟩]

theorem firstFile?_cons_variants {file : Path} {files : List Path} {name : String}
    (hname : LayoutData.layoutOfFile file = name) (layout : String) :
    Layout.firstFile? (file :: files) layout =
      if name = layout then some file else Layout.firstFile? files layout := by
  rw [Layout.firstFile?, List.find?_cons, hname, Layout.firstFile?]
  by_cases h : name = layout
  · rw [if_pos h, beq_iff_eq.2 h]
  · rw [if_neg h, beq_eq_false_iff_ne.2 h]

theorem rearranges_variants : (onVariants markedFirst).Rearranges (onVariants includerFirst) where
  package := rfl
  classInfos := rfl
  symbolLists := rfl
  nonTransitive := rfl
  rClassOutput := rfl
  stubsOutput := rfl
  resourceFiles := .refl _
  layoutFiles := by
    show markedFirst.Perm includerFirst
    decide
  firstFile? layout := by
    obtain ⟨hplain, hland, hincluder⟩ := layoutOfFile_variants
    show Layout.firstFile? includerFirst layout = Layout.firstFile? markedFirst layout
    rw [includerFirst, markedFirst, firstFile?_cons_variants hincluder,
      firstFile?_cons_variants hland, firstFile?_cons_variants hplain,
      firstFile?_cons_variants hland, firstFile?_cons_variants hplain,
      firstFile?_cons_variants hincluder]
    by_cases ha : "a" = layout
    · have hb : ¬"b" = layout := by
        rw [← ha]
        decide
      rw [if_neg hb, if_pos ha, if_pos ha]
    · rw [if_neg ha, if_neg ha, if_neg ha, if_neg ha]

/-- The run with the marked variant first, and the same with its layouts in another order. -/
theorem exists_run_includerFirst : ∃ s final final',
    (onVariants markedFirst).run variants = (.ok s, final) ∧ s.stubs = 2 ∧
    (onVariants markedFirst).Rearranges (onVariants includerFirst) ∧
    (onVariants includerFirst).run variants = (.ok s, final') ∧ final.SameFiles final' := by
  obtain ⟨inputs, middle, final, hs, hlayouts, hshape⟩ := exists_stages_markedFirst
  obtain ⟨hplaceA, hplaceB⟩ := isOutput_classPath markedFirst
  obtain ⟨hclassA, hclassB, -⟩ := className_variants
  have hne : final.fileAt? ((onVariants markedFirst).classPath "ABinding") ≠
      final.fileAt? ((onVariants markedFirst).classPath "BBinding") := by
    rw [hshape.fileAt?, hshape.fileAt?, hplaceA.2, hplaceB.2]
    decide
  have hapart : (onVariants markedFirst).ClassesApart final
      [variant ⟨"layout-land/a.xml"⟩, including] := by
    have hslash : ∀ d ∈ [variant ⟨"layout-land/a.xml"⟩, including], '/' ∉ d.className.toList := by
      intro d hd
      rcases List.mem_pair.1 hd with rfl | rfl
      · rw [hclassA]
        decide
      · rw [hclassB]
        decide
    refine ⟨fun d hd e he => parent?_classPath_congr (hslash d hd) (hslash e he),
      fun d hd e he hplace => ?_⟩
    · rcases List.mem_pair.1 hd with rfl | rfl <;> rcases List.mem_pair.1 he with rfl | rfl
      · rfl
      · rw [hclassA, hclassB] at hplace
        exact absurd hplace hne
      · rw [hclassA, hclassB] at hplace
        exact absurd hplace.symm hne
      · rfl
  have hrun := hs.run_eq hlayouts
  obtain ⟨final', hrun', hfiles⟩ := exists_run_of_rearranges hrun rearranges_variants
    fun inputs' middle' selected' hs' => by
      obtain ⟨-, -, rfl⟩ := hs.unique hs'
      exact hapart
  exact ⟨_, final, final', hrun, rfl, rearranges_variants, hrun', hfiles⟩

end Command
end ResourceStubs
