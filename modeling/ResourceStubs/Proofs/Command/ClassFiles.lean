import Mathlib.Data.List.Dedup
import Mathlib.Data.List.Perm.Subperm
import ResourceStubs.Proofs.Command.IncludeClosure
import ResourceStubs.Proofs.Java.JoinedPath
import ResourceStubs.Proofs.Java.NameSpelling

/-!
# The files of the binding classes

Layouts are told apart by their names, and files by the names of the classes.  A class
name has no underscores any more, so two selected layouts can have one class name, and
then one file: it holds the class of the layout that comes last (`readText?_classPath`),
and the run counts more classes than there are files.

`class_files_of_run` says when this happens, for every run that succeeds.  The count can
also be off by a layout that was written over after it was counted
(`Stages.length_selected_le`).  Where there are no links and no class name has a slash in
it, files are as different as the names of the classes; and layouts in snake case have
class names of their own (`nodup_className_of_isSnakeCase`).
-/

namespace ResourceStubs

open Java

namespace Tree

variable {t : Tree}

/-- Is no place a link? -/
def HasNoLinks (t : Tree) : Prop :=
  ∀ place target, t.find? place ≠ some (.link target)

/-- Without links, a path leads to a file of the name that it ends with. -/
theorem HasNoLinks.getLast?_of_locate (hno : t.HasNoLinks) {links : Nat} {dir place : Place}
    {segments : List String} {content : Content} {name : String}
    (h : t.locate links dir segments = some (.found place (.file content)))
    (hlast : segments.getLast? = some name) (hidle : ¬Path.isIdle name = true)
    (hup : name ≠ "..") : place.getLast? = some name := by
  -- a segment that is not the last one is passed over
  have htail : ∀ {segment : String} {rest : List String},
      (segment :: rest).getLast? = some name → segment ≠ name → rest.getLast? = some name := by
    intro segment rest hlast hne
    cases rest with
    | nil => exact absurd (Option.some.inj hlast) hne
    | cons next rest => rwa [List.getLast?_cons_cons] at hlast
  fun_induction t.locate links dir segments with
  | case1 => exact absurd hlast (by simp)
  | case2 links dir segment rest hsegment ih =>
      exact ih h (htail hlast fun heq => hidle (heq ▸ hsegment))
  | case3 links dir rest _ ih => exact ih h (htail hlast fun heq => hup heq.symm)
  | case4 => exact absurd h (by simp)
  | case5 => exact absurd h (by simp)
  | case6 links dir segment rest _ _ place' _ ih =>
      cases rest with
      | nil =>
          rw [locate_nil] at h
          exact absurd (Target.found.inj (Option.some.inj h)).2 (by simp)
      | cons next rest => exact ih h (by rwa [List.getLast?_cons_cons] at hlast)
  | case7 links dir segment rest _ _ place' _ _ hrest =>
      rw [List.isEmpty_iff.1 hrest, List.getLast?_singleton] at hlast
      rw [← (Target.found.inj (Option.some.inj h)).1, ← hlast]
      exact List.getLast?_concat
  | case8 => exact absurd h (by simp)
  | case9 => exact absurd h (by simp)
  | case10 dir segment rest _ _ place' target hfind => exact absurd hfind (hno _ _)

end Tree

/-- Where there are no links, source files of one package whose names have no slash are at
different places if their names differ. -/
theorem Java.CompilationUnit.typeName_eq_of_hasFile {t : Tree} (hno : t.HasNoLinks)
    {package name name' : String} {dir : Path} (h : '/' ∉ name.toList) (h' : '/' ∉ name'.toList)
    {place : Place} (hfile : t.HasFile (pathBelow ⟨package, name, ""⟩ dir) place)
    (hfile' : t.HasFile (pathBelow ⟨package, name', ""⟩ dir) place) : name = name' := by
  obtain ⟨front, hfront, hpath⟩ := exists_pathBelow_eq package dir
  obtain ⟨segs, hsegs⟩ := Path.exists_segments_append hfront
  have hlast : ∀ {name : String}, '/' ∉ name.toList →
      t.HasFile (pathBelow ⟨package, name, ""⟩ dir) place →
        place.getLast? = some (name ++ ".java") := by
    rintro name hname ⟨content, htarget⟩
    rw [hpath name "" hname] at htarget
    have hisName := isName_append_java hname
    refine hno.getLast?_of_locate (Tree.locate_of_target? htarget) ?_ hisName.counts hisName.ne_up
    rw [hsegs _ hisName.notMem, List.getLast?_concat]
  have hnames := Option.some.inj ((hlast h hfile).symm.trans (hlast h' hfile'))
  exact String.append_left_inj ".java" |>.1 hnames

namespace Command

variable {c : Command} {tree middle final : Tree} {inputs : Inputs}
  {counted selected : List LayoutData} {s : Summary} {d e : LayoutData}

/-- The place of the class of a layout. -/
def classPlace (c : Command) (final : Tree) (d : LayoutData) : Option Place :=
  final.fileAt? (c.classPath d.className)

/-- The places of the classes of some layouts, each of them once. -/
def classFiles (c : Command) (final : Tree) (selected : List LayoutData) : List (Option Place) :=
  (selected.map (c.classPlace final)).dedup

/-- The last layout whose class has this place. -/
def lastAt? (c : Command) (final : Tree) (selected : List LayoutData) (place : Option Place) :
    Option LayoutData :=
  (selected.filter fun e => c.classPlace final e = place).getLast?

/-- The class of every selected layout has a file. -/
theorem Stages.hasFile_classPath (h : c.Stages tree inputs middle selected final)
    (hd : d ∈ selected) : ∃ place, final.HasFile (c.classPath d.className) place := by
  have hmem : Stub.render c.package d ∈ selected.map (Stub.render c.package) :=
    List.mem_map_of_mem hd
  obtain ⟨v, -, hv⟩ := CompilationUnit.exists_readText?_of_writeAll h.writeInterface.2 _ hmem
  rw [pathBelow_render] at hv
  obtain ⟨place, hplace, -⟩ := Tree.exists_hasFile hv
  exact ⟨place, hplace⟩

/-- **What the file of a selected layout holds**: the class of the last selected layout
that has this file. -/
theorem Stages.readText?_classPath (h : c.Stages tree inputs middle selected final)
    (hd : d ∈ selected) :
    final.readText? (c.classPath d.className) =
      (c.lastAt? final selected (c.classPlace final d)).map fun e =>
        (Stub.render c.package e).source := by
  have hlast := CompilationUnit.readText?_eq_getLast? h.writeInterface.2
    ⟨_, List.mem_map_of_mem hd, rfl⟩
  rw [pathBelow_render] at hlast
  have hfilter : selected.filter ((fun u : CompilationUnit => decide
        (final.fileAt? (u.pathBelow c.stubsOutput) = final.fileAt? (c.classPath d.className))) ∘
          Stub.render c.package) =
      selected.filter fun e => c.classPlace final e = c.classPlace final d := by
    refine List.filter_congr fun e _ => ?_
    rw [Function.comp_apply, pathBelow_render, classPlace, classPlace]
  rw [hlast, List.filter_map, List.getLast?_map, Option.map_map, hfilter, lastAt?]
  rfl

theorem mem_of_lastAt? {place : Option Place} (h : c.lastAt? final selected place = some e) :
    e ∈ selected ∧ c.classPlace final e = place := by
  obtain ⟨he, hplace⟩ := List.mem_filter.1 (List.mem_of_getLast? h)
  exact ⟨he, of_decide_eq_true hplace⟩

theorem exists_lastAt? (hd : d ∈ selected) :
    ∃ e, c.lastAt? final selected (c.classPlace final d) = some e := by
  have hne : (selected.filter fun e => c.classPlace final e = c.classPlace final d) ≠ [] :=
    List.ne_nil_of_mem (List.mem_filter.2 ⟨hd, decide_eq_true rfl⟩)
  exact ⟨_, List.getLast?_eq_some_getLast hne⟩

/-- A layout that shares its file with no other is the last one there. -/
theorem lastAt?_of_nodup (hnodup : (selected.map (c.classPlace final)).Nodup)
    (hd : d ∈ selected) : c.lastAt? final selected (c.classPlace final d) = some d := by
  obtain ⟨e, he⟩ : ∃ e, c.lastAt? final selected (c.classPlace final d) = some e :=
    exists_lastAt? hd
  obtain ⟨hmem, hplace⟩ := mem_of_lastAt? he
  rw [he, List.inj_on_of_nodup_map hnodup hmem hd hplace]

/-- Layouts with one class name share a file. -/
theorem nodup_className (hnodup : (selected.map (c.classPlace final)).Nodup) :
    (selected.map LayoutData.className).Nodup := by
  refine (List.nodup_map_iff_inj_on (hnodup.of_map _)).2 fun d hd e he hname => ?_
  refine List.inj_on_of_nodup_map hnodup hd he ?_
  rw [classPlace, classPlace, hname]

/-- **Where there are no links, layouts share a file only if they have one class name**, as
long as class names have no slash. -/
theorem Stages.nodup_classPlace (h : c.Stages tree inputs middle selected final)
    (hno : final.HasNoLinks) (hslash : ∀ d ∈ selected, '/' ∉ d.className.toList)
    (hnodup : (selected.map LayoutData.className).Nodup) :
    (selected.map (c.classPlace final)).Nodup := by
  refine (List.nodup_map_iff_inj_on hnodup.of_map).2 fun d hd e he hplace => ?_
  obtain ⟨place, hfile⟩ := h.hasFile_classPath hd
  obtain ⟨place', hfile'⟩ := h.hasFile_classPath he
  rw [classPlace, classPlace, hfile.fileAt?, hfile'.fileAt?, Option.some.injEq] at hplace
  rw [← hplace] at hfile'
  exact List.inj_on_of_nodup_map hnodup hd he
    (CompilationUnit.typeName_eq_of_hasFile hno (hslash d hd) (hslash e he) hfile hfile')

/-- **Layouts in snake case have class names of their own.** -/
theorem nodup_className_of_isSnakeCase (hnodup : (selected.map LayoutData.layout).Nodup)
    (hsnake : ∀ d ∈ selected, IsSnakeCase d.layout) :
    (selected.map LayoutData.className).Nodup :=
  (nodup_map_iff_of_nodup hnodup).2 fun d hd e he hname =>
    bindingClassName_inj (hsnake d hd) (hsnake e he) hname

/-- What is marked when the interface has been written was marked before. -/
theorem Stages.marks_of_marks_withInterface (h : c.Stages tree inputs middle selected final)
    {file : Path} (hread : ∃ text, middle.readText? file = some text)
    (hmarks : TypeStore.marks (c.withInterface middle) file = true) :
    TypeStore.marks middle file = true := by
  obtain ⟨text, htext⟩ := hread
  rcases CompilationUnit.readText?_or_of_writeAll h.writeInterface.1 htext with
    hs | ⟨u, hu, hs⟩
  · rw [TypeStore.marks, hs] at hmarks
    rw [TypeStore.marks, htext]
    exact hmarks
  · -- the interface itself is not marked
    obtain rfl := List.mem_singleton.1 hu
    have hplain : TypeStore.isMarked Stub.component.source = false := by decide
    rw [TypeStore.marks, hs, Option.any_some, hplain] at hmarks
    exact absurd hmarks (by simp)

/-- **Every selected layout has been counted**, or another one of its name. -/
theorem Stages.length_selected_le (h : c.Stages tree inputs middle selected final)
    (hcount : Selection.all middle inputs.layouts = .ok counted) :
    selected.length ≤ counted.length := by
  obtain ⟨_, _, _, -, -, hlayouts, -, -⟩ := readInputs_eq_ok_iff.1 h.read
  have hnodup := Layout.nodup_readFiles hlayouts
  have hsub : selected.map LayoutData.layout ⊆ counted.map LayoutData.layout := by
    intro name hname
    obtain ⟨d, hd, hlayout⟩ := List.mem_map.1 hname
    refine List.mem_map.2 ((Selection.exists_selected_iff hnodup hcount name).2 ?_)
    refine ((Selection.exists_selected_iff hnodup h.select name).1 ⟨d, hd, hlayout⟩).imp_left ?_
    rintro ⟨e, he, hlayout, hmarked⟩
    refine ⟨e, he, hlayout, ?_⟩
    obtain ⟨file, hfile, hmarks⟩ := (Option.any_eq_true _ _).1 hmarked
    obtain ⟨hreadable, -⟩ := (Selection.all_eq_ok_iff hnodup).1 hcount
    rw [Selection.isMarkedLayout, hfile, Option.any_some]
    exact h.marks_of_marks_withInterface (hreadable e he file hfile) hmarks
  have hle := (List.subperm_of_subset (Selection.nodup_selected hnodup h.select) hsub).length_le
  rwa [List.length_map, List.length_map] at hle

/-- **The files of the binding classes.**  Let a run succeed.  The selected layouts have
different names, and the file of each holds the class of the last layout that has this
file.  There are never more files than classes are counted.  There are as many exactly when
no layout was lost after it was counted, which takes a layout file that is written over,
and no two selected layouts share a file.  In that case class names differ, and the file of
each layout holds its own class.  Class names that differ suffice where there are no links
and no class name has a slash in it. -/
theorem class_files_of_run {c : Command} {tree final : Tree} {s : Summary}
    (h : c.run tree = (.ok s, final)) :
    ∃ inputs middle counted selected, c.Stages tree inputs middle selected final ∧
      Selection.all middle inputs.layouts = .ok counted ∧ s.stubs = counted.length ∧
      (c.LayoutsApart final → counted = selected) ∧
      (selected.map LayoutData.layout).Nodup ∧
      (∀ d ∈ selected, final.readText? (c.classPath d.className) =
        (c.lastAt? final selected (c.classPlace final d)).map fun e =>
          (Stub.render c.package e).source) ∧
      (c.classFiles final selected).length ≤ s.stubs ∧
      ((c.classFiles final selected).length = s.stubs ↔
        selected.length = s.stubs ∧ (selected.map (c.classPlace final)).Nodup) ∧
      ((selected.map (c.classPlace final)).Nodup →
        (selected.map LayoutData.className).Nodup ∧
        ∀ d ∈ selected, final.readText? (c.classPath d.className) =
          some (Stub.render c.package d).source) ∧
      (final.HasNoLinks → (∀ d ∈ selected, '/' ∉ d.className.toList) →
        (selected.map LayoutData.className).Nodup →
          (selected.map (c.classPlace final)).Nodup) := by
  obtain ⟨inputs, middle, counted, selected, hs, hcount, rfl⟩ := run_eq_ok_iff.1 h
  obtain ⟨_, _, _, -, -, hlayouts, -, -⟩ := readInputs_eq_ok_iff.1 hs.read
  have hle := hs.length_selected_le hcount
  have hsub := List.dedup_sublist (selected.map (c.classPlace final))
  have hfiles : (c.classFiles final selected).length ≤ selected.length := by
    have hlength := hsub.length_le
    rwa [List.length_map] at hlength
  refine ⟨inputs, middle, counted, selected, hs, hcount, rfl, fun hapart => ?_,
    Selection.nodup_selected (Layout.nodup_readFiles hlayouts) hs.select,
    fun d hd => hs.readText?_classPath hd, Nat.le_trans hfiles hle, ?_, fun hnodup => ?_,
    fun hno hslash hnodup => hs.nodup_classPlace hno hslash hnodup⟩
  · exact Except.ok.inj (hcount.symm.trans (hs.counted_eq hapart))
  · show (c.classFiles final selected).length = counted.length ↔
      selected.length = counted.length ∧ _
    constructor
    · intro heq
      have hselected : selected.length = counted.length := by omega
      refine ⟨hselected, List.dedup_eq_self.1 (hsub.eq_of_length ?_)⟩
      rw [List.length_map, hselected, ← heq]
      rfl
    · rintro ⟨hselected, hnodup⟩
      rw [classFiles, List.dedup_eq_self.2 hnodup, List.length_map, hselected]
  · refine ⟨nodup_className hnodup, fun d hd => ?_⟩
    rw [hs.readText?_classPath hd, lastAt?_of_nodup hnodup hd]
    rfl

/-- Two classes in two files. -/
theorem class_files_of_run_markedFirst : ∃ s final,
    (onVariants markedFirst).run variants = (.ok s, final) ∧ s.stubs = 2 ∧
    ((onVariants markedFirst).classFiles final
      [variant ⟨"layout-land/a.xml"⟩, including]).length = 2 ∧
    ∀ d ∈ [variant ⟨"layout-land/a.xml"⟩, including],
      final.readText? ((onVariants markedFirst).classPath d.className) =
        some (Stub.render "p" d).source := by
  obtain ⟨inputs, middle, final, hs, hlayouts, hshape⟩ := exists_stages_markedFirst
  have hrun := hs.run_eq hlayouts
  obtain ⟨inputs', middle', counted, selected, hs', -, -, -, -, -, -, hcount, hown, -⟩ :=
    class_files_of_run hrun
  obtain ⟨-, -, rfl⟩ := hs.unique hs'
  have hnodup : ([variant ⟨"layout-land/a.xml"⟩, including].map
      ((onVariants markedFirst).classPlace final)).Nodup := by
    obtain ⟨hplaceA, hplaceB⟩ := isOutput_classPath markedFirst
    obtain ⟨hclassA, hclassB, -⟩ := className_variants
    rw [List.map_cons, List.map_cons, List.map_nil, classPlace, classPlace, hclassA, hclassB,
      hshape.fileAt?, hshape.fileAt?, hplaceA.2, hplaceB.2]
    decide
  exact ⟨_, final, hrun, rfl, hcount.2 ⟨rfl, hnodup⟩, (hown hnodup).2⟩

/-! ## Two layouts with one class -/

/-- A layout with one view. -/
def viewer : String :=
  "<layout><View android:id='@+id/v'/></layout>"

/-- The tag of its view. -/
def viewTag : Markup.Tag :=
  ⟨"View", ⟨[("android:id", "@+id/v")]⟩⟩

/-- The directories of the variants with two layouts more, whose names differ by an
underscore. -/
def twins : Tree :=
  (variants.put ["layout", "a1.xml"] (.file (.text viewer))).put ["layout", "a_1.xml"]
    (.file (.text "<layout/>"))

/-- The command on the two layouts. -/
def onTwins : Command :=
  onVariants [⟨"layout/a1.xml"⟩, ⟨"layout/a_1.xml"⟩]

/-- What is read of the layout with a view. -/
def viewing : LayoutData :=
  ⟨"a1", some ⟨"layout/a1.xml"⟩, [⟨"v", .named "android.view.View", .view⟩], []⟩

/-- What is read of the other one. -/
def plain : LayoutData :=
  ⟨"a_1", some ⟨"layout/a_1.xml"⟩, [], []⟩

/-- Both are files now, and what could be written before can be written still. -/
theorem sameShape_twins : variants.SameShape twins ∧
    variants.fileAt? ⟨"layout/a1.xml"⟩ = some ["layout", "a1.xml"] ∧
    variants.fileAt? ⟨"layout/a_1.xml"⟩ = some ["layout", "a_1.xml"] := by
  have hviewer : variants.LiesIn ⟨"layout/a1.xml"⟩ ["layout"] "a1.xml" := by decide
  have hplain : variants.LiesIn ⟨"layout/a_1.xml"⟩ ["layout"] "a_1.xml" := by decide
  have hplace : variants.Writable ⟨"layout/a1.xml"⟩ ["layout", "a1.xml"] :=
    ⟨hviewer.fileAt?_of_none rfl, fun _ => by decide⟩
  have hplace' : variants.Writable ⟨"layout/a_1.xml"⟩ ["layout", "a_1.xml"] :=
    ⟨hplain.fileAt?_of_none rfl, fun _ => by decide⟩
  have hshape := hplace.sameShape_put (.text viewer)
  have hshape' := ((hshape.writable _ _).2 hplace').sameShape_put (.text "<layout/>")
  exact ⟨hshape.trans hshape', hplace.1, hplace'.1⟩

theorem readText?_twins : twins.readText? ⟨"layout/a1.xml"⟩ = some viewer ∧
    twins.readText? ⟨"layout/a_1.xml"⟩ = some "<layout/>" := by
  obtain ⟨hshape, hviewer, hplain⟩ := sameShape_twins
  rw [← hshape.fileAt?] at hviewer hplain
  exact ⟨Tree.readText?_eq_some_iff.2 ⟨_, hviewer, rfl⟩,
    Tree.readText?_eq_some_iff.2 ⟨_, hplain, rfl⟩⟩

/-- Both layouts are read, whatever the stores know. -/
theorem readFile_twins (types : LayoutTypes) :
    Layout.readFile "p" types twins ⟨"layout/a1.xml"⟩ = .ok viewing ∧
    Layout.readFile "p" types twins ⟨"layout/a_1.xml"⟩ = .ok plain := by
  have hviewerTags : Markup.tagsOf (Markup.read viewer) = ⟨[⟨"layout", ⟨[]⟩⟩, viewTag], true⟩ := by
    decide +kernel
  have hplainTags : Markup.tagsOf (Markup.read "<layout/>") = ⟨[⟨"layout", ⟨[]⟩⟩], true⟩ := by
    decide +kernel
  have hviewerName : LayoutData.layoutOfFile ⟨"layout/a1.xml"⟩ = "a1" := by decide
  have hplainName : LayoutData.layoutOfFile ⟨"layout/a_1.xml"⟩ = "a_1" := by decide
  obtain ⟨hviewer, hplain⟩ := readText?_twins
  constructor
  · have hid : Layout.newId? viewTag = some "v" := by decide
    have htype : Layout.viewType "View" = .named "android.view.View" := by decide
    have hbinding : Layout.bindingOf "p" types ⟨"layout/a1.xml"⟩ viewTag "v" =
        .ok ⟨"v", .named "android.view.View", .view⟩ := by
      rw [Layout.bindingOf, if_neg (by decide), ← htype]
      rfl
    rw [Layout.readFile_of_newId hviewer hviewerTags (by decide) hid hbinding, hviewerName]
    rfl
  · rw [Layout.readFile_of_tags (s := .start) hplain hplainTags rfl, hplainName]
    rfl

theorem readInputs_onTwins : ∃ table, onTwins.readInputs twins = .ok ⟨[viewing, plain], table⟩ := by
  obtain ⟨hviewer, hplain⟩ := readText?_twins
  obtain ⟨own, hown⟩ : ∃ own, TypeStore.ofFiles "p" twins onTwins.layoutFiles = .ok own := by
    refine ⟨_, TypeStore.ofFiles_eq_ok_iff.2 ⟨fun file hfile => ?_, rfl⟩⟩
    rcases List.mem_pair.1 hfile with rfl | rfl
    · exact ⟨_, hviewer⟩
    · exact ⟨_, hplain⟩
  have hlayouts : ∀ types, Layout.readFiles "p" types twins onTwins.layoutFiles =
      .ok [viewing, plain] := fun types =>
    Layout.readFiles_eq_ok_iff.2 ⟨_, mapM_eq_ok_iff.2
      (.cons (readFile_twins types).1 (.cons (readFile_twins types).2 .nil)), rfl⟩
  exact ⟨_, readInputs_eq_ok_iff.2 ⟨own, .empty, [], hown, rfl, hlayouts _, rfl, rfl⟩⟩

theorem all_twins : Selection.all twins [viewing, plain] = .ok [viewing, plain] := by
  have hnodup : ([viewing, plain].map LayoutData.layout).Nodup := by
    show ["a1", "a_1"].Nodup
    decide
  obtain ⟨hviewer, hplain⟩ := readText?_twins
  have hmarked : Selection.isMarkedLayout twins viewing = true ∧
      Selection.isMarkedLayout twins plain = true := by
    show TypeStore.marks twins ⟨"layout/a1.xml"⟩ = true ∧
      TypeStore.marks twins ⟨"layout/a_1.xml"⟩ = true
    rw [TypeStore.marks, TypeStore.marks, hviewer, hplain]
    decide
  refine (Selection.all_eq_ok_iff hnodup).2 ⟨fun d hd path hpath => ?_, ?_⟩
  · rcases List.mem_pair.1 hd with rfl | rfl
    · exact ⟨_, Option.some.inj hpath ▸ hviewer⟩
    · exact ⟨_, Option.some.inj hpath ▸ hplain⟩
  · rw [List.filter_cons_of_pos hmarked.1, List.filter_cons_of_pos hmarked.2, List.filter_nil]
    rfl

theorem className_twins : viewing.className = "A1Binding" ∧ plain.className = "A1Binding" := by
  decide

theorem prepared_onTwins : onTwins.Prepared twins [viewing, plain] := by
  obtain ⟨hshape, hviewer, hplain⟩ := sameShape_twins
  have hclass : IsOutput (onTwins.classPath "A1Binding")
      (["s", "p", "databinding"] ++ ["A1Binding.java"]) := by
    have hpath : CompilationUnit.pathBelow ⟨Stub.packageOf "p", "A1Binding", ""⟩ ⟨"s"⟩ =
        ⟨"s/p/databinding/A1Binding.java"⟩ := by decide
    show IsOutput (CompilationUnit.pathBelow ⟨Stub.packageOf "p", "A1Binding", ""⟩ ⟨"s"⟩) _
    rw [hpath]
    exact isOutput_of_liesIn (by decide)
  refine prepared_of_sameShape (c := onTwins) hshape rfl (fun d hd => ?_) fun file hfile => ?_
  · obtain ⟨hviewing, hplainName⟩ := className_twins
    rcases List.mem_pair.1 hd with rfl | rfl
    · exact ⟨_, hviewing ▸ hclass⟩
    · exact ⟨_, hplainName ▸ hclass⟩
  · rcases List.mem_pair.1 hfile with rfl | rfl
    · rw [hviewer]
      decide
    · rw [hplain]
      decide

/-- **One class overwrites another.**  Two layouts are selected and counted, their classes
have one name, and there is one file; what it holds is the class of the second layout. -/
theorem class_overwritten : ∃ s inputs middle final,
    onTwins.run twins = (.ok s, final) ∧ onTwins.LayoutsApart final ∧
    onTwins.Stages twins inputs middle [viewing, plain] final ∧ s.stubs = 2 ∧
    ¬([viewing, plain].map LayoutData.className).Nodup ∧
    (onTwins.classFiles final [viewing, plain]).length = 1 ∧
    final.readText? (onTwins.classPath viewing.className) =
      some (Stub.render "p" plain).source := by
  obtain ⟨table, hread⟩ := readInputs_onTwins
  obtain ⟨middle, final, hs, hshape, -⟩ :=
    exists_stages_of_prepared hread all_twins prepared_onTwins
  have hapart := prepared_onTwins.apart.sameShape hshape
  obtain ⟨hviewing, hplain⟩ := className_twins
  have hplace : onTwins.classPlace final viewing = onTwins.classPlace final plain := by
    rw [classPlace, classPlace, hviewing, hplain]
  refine ⟨_, _, middle, final, hs.run_eq hapart, hapart, hs, rfl, ?_, ?_, ?_⟩
  · rw [List.map_cons, List.map_cons, List.map_nil, hviewing, hplain]
    decide
  · rw [classFiles, List.map_cons, List.map_cons, List.map_nil, hplace,
      List.dedup_cons_of_mem (List.mem_singleton_self _), List.dedup_cons_of_notMem (by simp)]
    rfl
  · rw [hs.readText?_classPath List.mem_cons_self, lastAt?,
      List.filter_cons_of_pos (by simp), List.filter_cons_of_pos (by simp [hplace]),
      List.filter_nil]
    rfl

end Command
end ResourceStubs
