import ResourceStubs.Proofs.Command.ClassFiles

/-!
# The directory of the binding classes

A binding class is called after its layout, and its file after the class.  The name of a
layout that has a file is cut out of a file name, so it has no slash in it, and the class
stands in the directory of its package.  The name of a missing layout is whatever stands
in the `layout` attribute of an include.  Nothing looks at it before it becomes part of a
path: a change of case makes no slash and takes none away (`slash_mem_bindingClassName`).

So a slash in the name of a missing layout is exactly what leads a class out of its
package (`class_in_package_iff`), into a directory below it, or above it, or, where the
name begins with the slash, to a place that has nothing to do with the output directory.
-/

namespace ResourceStubs

open Java ResourceStubs.Path

/-! ## Slashes in names -/

namespace Text

theorem beforeFirst_subset (pattern text : List Char) : beforeFirst pattern text ⊆ text := by
  rw [beforeFirst]
  split
  · rename_i before after hcut
    rw [eq_of_cutFirst?_eq_some hcut, List.append_assoc]
    exact List.subset_append_left _ _
  · exact List.Subset.refl _

end Text

/-- **The class of a layout has a slash in its name if the layout has.** -/
theorem Java.slash_mem_bindingClassName {layout : String} :
    '/' ∈ (bindingClassName layout).toList ↔ '/' ∈ layout.toList :=
  mem_bindingClassName_iff (by decide +kernel) (by decide) (by decide)

/-- A slash at the front of a layout name stays there. -/
theorem Java.head?_bindingClassName {layout : String} (h : layout.toList.head? = some '/') :
    (bindingClassName layout).toList.head? = some '/' := by
  obtain ⟨cs, hcs⟩ := List.head?_eq_some_iff.1 h
  obtain ⟨piece, rest, hpieces⟩ := Text.pieces_cons_of_ne (by decide : '/' ≠ '_') cs
  have hupper : Text.upper '/' = ['/'] := by decide +kernel
  rw [bindingClassName, String.toList_append, String.toList_ofList, joinedPieces, hcs, hpieces,
    List.flatMap_cons, Text.capitalizeChars_cons, hupper]
  rfl

/-- A file name is a component of a path, and has no slash in it. -/
theorem LayoutData.slash_notMem_layoutOfFile (file : Path) :
    '/' ∉ (layoutOfFile file).toList := by
  intro hmem
  rw [layoutOfFile, String.toList_ofList] at hmem
  have hname := Text.beforeFirst_subset _ _ hmem
  cases hfile : file.fileName? with
  | none =>
      rw [hfile] at hname
      exact absurd hname (by decide)
  | some name =>
      rw [hfile, Option.getD_some] at hname
      rw [fileName?_eq, Option.bind_eq_some_iff] at hfile
      obtain ⟨component, hlast, hcomponent⟩ := hfile
      cases component with
      | name text =>
          obtain rfl : text = name := Option.some.inj hcomponent
          exact notMem_of_name_mem_components (List.mem_of_getLast? hlast) hname
      | root | here | up => exact absurd hcomponent (by simp [Component.name?])

/-! ## The path of a class -/

/-- The segments of a package name come back, with one more for the binding classes. -/
theorem packageSegments_packageOf {segs : List String}
    (hsegs : ∀ text ∈ segs, text ≠ "" ∧ '.' ∉ text.toList) (name body : String) :
    CompilationUnit.packageSegments ⟨Stub.packageOf (".".intercalate segs), name, body⟩ =
      segs ++ ["databinding"] := by
  have hjoined : (".".intercalate segs ++ ".databinding").toList =
      ['.'].intercalate (segs.map String.toList) ++ '.' :: "databinding".toList := by
    rw [String.toList_append, String.toList_intercalate]
    rfl
  have hlast : (Text.pieces '.' "databinding".toList).filter (fun s => !s.isEmpty) =
      ["databinding".toList] := by decide
  have hfront : (Text.pieces '.' (['.'].intercalate (segs.map String.toList))).filter
      (fun s => !s.isEmpty) = segs.map String.toList := by
    by_cases hnil : segs = []
    · rw [hnil]
      rfl
    · rw [Text.pieces_intercalate (by simpa using hnil), List.filter_eq_self]
      · intro cs hcs
        obtain ⟨text, htext, rfl⟩ := List.mem_map.1 hcs
        simpa using (hsegs text htext).1
      · intro cs hcs
        obtain ⟨text, htext, rfl⟩ := List.mem_map.1 hcs
        exact (hsegs text htext).2
  rw [CompilationUnit.packageSegments, Stub.packageOf, hjoined, Text.pieces_append,
    List.filter_append, hlast, hfront, List.map_append, List.map_map]
  simp [Function.comp_def]

namespace Command

variable {c : Command} {tree middle final : Tree} {inputs : Inputs}
  {selected : List LayoutData} {s : Summary} {segs : List String}

/-- The package name is these segments with dots between them, and all of them can be names
of directories. -/
structure HasSegments (c : Command) (segs : List String) : Prop where
  package : c.package = ".".intercalate segs
  nonempty : ∀ text ∈ segs, text ≠ ""
  dot : ∀ text ∈ segs, '.' ∉ text.toList
  slash : ∀ text ∈ segs, '/' ∉ text.toList

/-- Does the class stand right in the directory of its package, in a file of its own
name? -/
def StandsInPackage (c : Command) (segs : List String) (className : String) : Prop :=
  (c.classPath className).components =
    c.stubsOutput.components ++ (segs ++ ["databinding", className ++ ".java"]).map .name

theorem HasSegments.isName (h : c.HasSegments segs) :
    ∀ text ∈ segs ++ ["databinding"], IsName text := by
  intro text htext
  rcases List.mem_append.1 htext with htext | htext
  · -- a step of another kind is empty or has a dot in it
    have hdot := h.dot text htext
    refine ⟨h.slash text htext, ?_, ?_⟩
    · rw [isIdle, Bool.or_eq_true, beq_iff_eq, beq_iff_eq, not_or]
      exact ⟨h.nonempty text htext, fun heq => hdot (heq ▸ by decide)⟩
    · exact fun heq => hdot (heq ▸ by decide)
  · obtain rfl := List.mem_singleton.1 htext
    exact ⟨by decide, by decide, by decide⟩

theorem HasSegments.packageSegments (h : c.HasSegments segs) (className : String) :
    CompilationUnit.packageSegments ⟨Stub.packageOf c.package, className, ""⟩ =
      segs ++ ["databinding"] := by
  rw [h.package]
  exact packageSegments_packageOf (fun text htext => ⟨h.nonempty text htext, h.dot text htext⟩) _ _

/-- **Slashes in its name lead a class out of its package**, and nothing else does. -/
theorem HasSegments.standsInPackage_iff (h : c.HasSegments segs) (className : String) :
    c.StandsInPackage segs className ↔ '/' ∉ className.toList := by
  constructor
  · intro hstands hslash
    have hmem : .name (className ++ ".java") ∈ (c.classPath className).components := by
      rw [hstands]
      simp
    refine notMem_of_name_mem_components hmem ?_
    rw [String.toList_append]
    exact List.mem_append_left _ hslash
  · intro hslash
    rw [StandsInPackage, classPath, CompilationUnit.components_pathBelow_of_notMem
      (h.packageSegments className) (by simp) h.isName hslash, List.append_assoc]
    rfl

/-- A class whose name begins with a slash has no directory but the one in its name. -/
theorem classPath_of_isAbsolute {className : String} (h : className.toList.head? = some '/') :
    c.classPath className = ⟨className ++ ".java"⟩ := by
  refine CompilationUnit.pathBelow_of_isAbsolute ?_
  rw [isAbsolute, String.toList_append, List.head?_append, h]
  rfl

/-- **Which classes stand in the directory of their package.**  Every class of a run is
written, under the path of its name.  It stands right in the directory of the package if
its layout has no slash in its name.  Layouts that have a file never have one; so all
classes stand there if and only if no layout that is included and missing has a slash in
its name.  One that begins with a slash leads to the same place whatever the output
directory is. -/
theorem class_in_package_iff {c : Command} {tree final : Tree} {s : Summary}
    {segs : List String} (h : c.run tree = (.ok s, final)) (hsegs : c.HasSegments segs) :
    ∃ inputs middle selected, c.Stages tree inputs middle selected final ∧
      (∀ d ∈ selected, ∃ place, final.HasFile (c.classPath d.className) place) ∧
      (∀ d ∈ selected, c.StandsInPackage segs d.className ↔ '/' ∉ d.layout.toList) ∧
      (∀ d ∈ selected, d.file.isSome → c.StandsInPackage segs d.className) ∧
      ((∀ d ∈ selected, c.StandsInPackage segs d.className) ↔
        ∀ layout ∈ inputs.layouts.flatMap LayoutData.missingLayouts, '/' ∉ layout.toList) ∧
      ∀ d ∈ selected, d.layout.toList.head? = some '/' →
        c.classPath d.className = ⟨d.className ++ ".java"⟩ := by
  obtain ⟨inputs, middle, -, selected, hs, -⟩ := run_eq_ok_iff.1 h
  obtain ⟨_, _, _, -, -, hlayouts, -, -⟩ := readInputs_eq_ok_iff.1 hs.read
  have hnodup := Layout.nodup_readFiles hlayouts
  have hslash : ∀ d : LayoutData,
      c.StandsInPackage segs d.className ↔ '/' ∉ d.layout.toList := fun d => by
    rw [hsegs.standsInPackage_iff, LayoutData.className, slash_mem_bindingClassName]
  -- a selected layout was read of a file, or is one of the missing
  have hselected : ∀ d ∈ selected, (d.file.isSome ∧ '/' ∉ d.layout.toList) ∨
      (d.file = none ∧ d.layout ∈ inputs.layouts.flatMap LayoutData.missingLayouts) := by
    intro d hd
    rcases (Selection.mem_selected_iff hnodup hs.select).1 hd with ⟨hmem, -⟩ | ⟨-, hmissing, hempty⟩
    · obtain ⟨file, -, hread⟩ := (Layout.mem_readFiles_iff hlayouts).1 hmem
      obtain ⟨hlayout, hfile⟩ := Layout.layout_of_readFile hread
      rw [hfile, hlayout]
      exact Or.inl ⟨rfl, LayoutData.slash_notMem_layoutOfFile file⟩
    · exact Or.inr ⟨congrArg LayoutData.file hempty, hmissing⟩
  refine ⟨inputs, middle, selected, hs, fun d hd => hs.hasFile_classPath hd,
    fun d _ => hslash d, fun d hd hfile => ?_, ?_, fun d _ hhead =>
      classPath_of_isAbsolute (head?_bindingClassName hhead)⟩
  · rcases hselected d hd with ⟨-, hno⟩ | ⟨hnone, -⟩
    · exact (hslash d).2 hno
    · rw [hnone] at hfile
      exact absurd hfile (by simp)
  · constructor
    · intro hall layout hmissing
      obtain ⟨d, hd, rfl⟩ :=
        (Selection.exists_selected_iff hnodup hs.select layout).2 (Or.inr hmissing)
      exact (hslash d).1 (hall d hd)
    · intro hall d hd
      rcases hselected d hd with ⟨-, hno⟩ | ⟨-, hmissing⟩
      · exact (hslash d).2 hno
      · exact (hslash d).2 (hall _ hmissing)

theorem hasSegments_onVariants (files : List Path) : (onVariants files).HasSegments ["p"] :=
  ⟨rfl, by decide, by decide, by decide⟩

/-- Both classes of the variants have a layout file, and stand in the package. -/
theorem class_in_package_markedFirst : ∃ s final,
    (onVariants markedFirst).run variants = (.ok s, final) ∧
    (onVariants markedFirst).HasSegments ["p"] ∧
    ∀ d ∈ [variant ⟨"layout-land/a.xml"⟩, including],
      (onVariants markedFirst).StandsInPackage ["p"] d.className := by
  obtain ⟨inputs, middle, final, hs, hapart, -⟩ := exists_stages_markedFirst
  have hrun := hs.run_eq hapart
  obtain ⟨inputs', middle', selected, hs', -, -, hfile, -, -⟩ :=
    class_in_package_iff hrun (hasSegments_onVariants markedFirst)
  obtain ⟨-, -, rfl⟩ := hs.unique hs'
  refine ⟨_, final, hrun, hasSegments_onVariants markedFirst, fun d hd => hfile d hd ?_⟩
  rcases List.mem_pair.1 hd with rfl | rfl <;> rfl

/-! ## A class outside of the output directory -/

/-- A layout that includes one that is not there, under a name with steps in it. -/
def climber : String :=
  "<layout><include android:id='@+id/i' layout='../../../x'/></layout>"

/-- The tag of its include. -/
def climbingTag : Markup.Tag :=
  ⟨"include", ⟨[("android:id", "@+id/i"), ("layout", "../../../x")]⟩⟩

/-- The directories of the variants with this layout. -/
def withClimber : Tree :=
  variants.put ["layout", "c.xml"] (.file (.text climber))

/-- The command on the layout. -/
def onClimber : Command :=
  onVariants [⟨"layout/c.xml"⟩]

/-- What is read of the layout. -/
def climbing : LayoutData :=
  ⟨"c", some ⟨"layout/c.xml"⟩,
    [⟨"i", LayoutData.localClass "p" "../../../x", .included "../../../x" true⟩], []⟩

theorem sameShape_withClimber : variants.SameShape withClimber ∧
    variants.fileAt? ⟨"layout/c.xml"⟩ = some ["layout", "c.xml"] := by
  have hlies : variants.LiesIn ⟨"layout/c.xml"⟩ ["layout"] "c.xml" := by decide
  have hplace : variants.Writable ⟨"layout/c.xml"⟩ ["layout", "c.xml"] :=
    ⟨hlies.fileAt?_of_none rfl, fun _ => by decide⟩
  exact ⟨hplace.sameShape_put (.text climber), hplace.1⟩

theorem readText?_withClimber : withClimber.readText? ⟨"layout/c.xml"⟩ = some climber := by
  obtain ⟨hshape, hplace⟩ := sameShape_withClimber
  rw [← hshape.fileAt?] at hplace
  exact Tree.readText?_eq_some_iff.2 ⟨_, hplace, rfl⟩

theorem readFile_withClimber {types : LayoutTypes} (htype : types.get? "../../../x" = none) :
    Layout.readFile "p" types withClimber ⟨"layout/c.xml"⟩ = .ok climbing := by
  have htags : Markup.tagsOf (Markup.read climber) =
      ⟨[⟨"layout", ⟨[]⟩⟩, climbingTag], true⟩ := by decide +kernel
  have hname : LayoutData.layoutOfFile ⟨"layout/c.xml"⟩ = "c" := by decide
  have hid : Layout.newId? climbingTag = some "i" := by decide
  have hlayout : Layout.includedLayout "../../../x" = "../../../x" := by decide
  have hincluded : Layout.includedType "p" types "../../../x" =
      (LayoutData.localClass "p" "../../../x", true) := by
    rw [Layout.includedType, htype]
  rw [Layout.readFile_of_newId readText?_withClimber htags (by decide) hid (b := ⟨"i",
    LayoutData.localClass "p" "../../../x", .included "../../../x" true⟩) ?_, hname]
  · rfl
  · rw [Layout.bindingOf, if_pos (by decide)]
    refine bind_eq_ok_iff.2 ⟨"../../../x", rfl, ?_⟩
    rw [hlayout]
    dsimp only
    rw [hincluded]
    rfl

theorem readInputs_onClimber :
    ∃ table, onClimber.readInputs withClimber = .ok ⟨[climbing], table⟩ := by
  obtain ⟨own, hown⟩ : ∃ own, TypeStore.ofFiles "p" withClimber [⟨"layout/c.xml"⟩] = .ok own :=
    ⟨_, TypeStore.ofFiles_eq_ok_iff.2
      ⟨List.forall_mem_singleton.2 ⟨_, readText?_withClimber⟩, rfl⟩⟩
  have hunknown : ¬TypeStore.Registers withClimber [⟨"layout/c.xml"⟩] "../../../x" := by
    rintro ⟨file, hfile, hlayout, -⟩
    obtain rfl := List.mem_singleton.1 hfile
    exact absurd hlayout (by decide)
  have htype : LayoutTypes.get? ⟨own, .empty⟩ "../../../x" = none := by
    rw [LayoutTypes.get?, TypeStore.get?_ofFiles hown, if_neg hunknown]
    rfl
  have hlayouts : Layout.readFiles "p" ⟨own, .empty⟩ withClimber [⟨"layout/c.xml"⟩] =
      .ok [climbing] :=
    Layout.readFiles_eq_ok_iff.2
      ⟨_, mapM_eq_ok_iff.2 (.cons (readFile_withClimber htype) .nil), rfl⟩
  exact ⟨_, readInputs_eq_ok_iff.2 ⟨own, .empty, [], hown, rfl, hlayouts, rfl, rfl⟩⟩

theorem all_withClimber : Selection.all withClimber [climbing] =
    .ok [climbing, .empty "../../../x"] := by
  have hmarked : Selection.isMarkedLayout withClimber climbing = true := by
    show TypeStore.marks withClimber ⟨"layout/c.xml"⟩ = true
    rw [TypeStore.marks, readText?_withClimber]
    decide
  refine (Selection.all_eq_ok_iff (by decide)).2 ⟨fun d hd path hpath => ?_, ?_⟩
  · obtain rfl := List.mem_singleton.1 hd
    exact ⟨_, Option.some.inj hpath ▸ readText?_withClimber⟩
  · rw [List.filter_cons_of_pos hmarked, List.filter_nil]
    rfl

theorem className_climbing : climbing.className = "CBinding" ∧
    (LayoutData.empty "../../../x").className = "../../../xBinding" := by
  decide

/-- The path of the class leads out of the package, out of the output directory, and to the
directory that the output directory is in. -/
theorem isOutput_climbing :
    IsOutput (onClimber.classPath "../../../xBinding") ["xBinding.java"] := by
  have hpath : onClimber.classPath "../../../xBinding" =
      ⟨"s/p/databinding/../../../xBinding.java"⟩ := by
    show CompilationUnit.pathBelow ⟨Stub.packageOf "p", "../../../xBinding", ""⟩ ⟨"s"⟩ = _
    decide
  have hplace : variants.fileAt? ⟨"s/p/databinding/../../../xBinding.java"⟩ =
      some ["xBinding.java"] := by
    have hlocate : variants.locate Tree.linkLimit []
        ["s", "p", "databinding", "..", "..", "..", "xBinding.java"] =
          some (.vacant ["xBinding.java"]) := by
      rw [Tree.locate_of_directory (by decide) (by decide) rfl,
        Tree.locate_of_directory (by decide) (by decide) rfl,
        Tree.locate_of_directory (by decide) (by decide) rfl,
        Tree.locate_up, Tree.locate_up, Tree.locate_up,
        Tree.locate_of_absent (by decide) (by decide) rfl]
      rfl
    exact Tree.fileAt?_eq_some_iff.2 (Or.inl hlocate)
  have hcreated : variants.Created
      ((⟨"s/p/databinding/../../../xBinding.java"⟩ : Path).parent?.getD ⟨""⟩) := by
    have hparent : (⟨"s/p/databinding/../../../xBinding.java"⟩ : Path).parent?.getD ⟨""⟩ =
        ⟨"s/p/databinding/../../.."⟩ := by decide
    rw [hparent]
    show variants.DirectoriesAlong [] ["s", "p", "databinding", "..", "..", ".."]
    exact .directory (by decide) (by decide) rfl (.directory (by decide) (by decide) rfl
      (.directory (by decide) (by decide) rfl (.up (.up (.up (.nil _))))))
  rw [hpath]
  exact ⟨⟨hcreated, _, hplace, fun _ => by decide⟩, hplace⟩

theorem prepared_onClimber : onClimber.Prepared withClimber [climbing, .empty "../../../x"] := by
  obtain ⟨hshape, hplace⟩ := sameShape_withClimber
  obtain ⟨hclass, hmissing⟩ := className_climbing
  have hpath : onClimber.classPath "CBinding" = ⟨"s/p/databinding/CBinding.java"⟩ := by
    show CompilationUnit.pathBelow ⟨Stub.packageOf "p", "CBinding", ""⟩ ⟨"s"⟩ = _
    decide
  have hout : IsOutput (onClimber.classPath "CBinding")
      (["s", "p", "databinding"] ++ ["CBinding.java"]) := by
    rw [hpath]
    exact isOutput_of_liesIn (by decide)
  refine prepared_of_sameShape (c := onClimber) hshape rfl (fun d hd => ?_) ?_
  · rcases List.mem_pair.1 hd with rfl | rfl
    · exact ⟨_, hclass ▸ hout⟩
    · exact ⟨_, hmissing ▸ isOutput_climbing⟩
  · refine List.forall_mem_singleton.2 ?_
    rw [hplace]
    decide

/-- **A class outside of the output directory.**  The run succeeds, and the class of the
missing layout lies beside the directory that classes are to be written below. -/
theorem class_outside_package : ∃ s inputs middle final,
    onClimber.run withClimber = (.ok s, final) ∧ onClimber.HasSegments ["p"] ∧
    onClimber.Stages withClimber inputs middle [climbing, .empty "../../../x"] final ∧
    ¬onClimber.StandsInPackage ["p"] (LayoutData.empty "../../../x").className ∧
    final.HasFile (onClimber.classPath (LayoutData.empty "../../../x").className)
      ["xBinding.java"] := by
  obtain ⟨table, hread⟩ := readInputs_onClimber
  obtain ⟨middle, final, hs, hshape, -⟩ :=
    exists_stages_of_prepared hread all_withClimber prepared_onClimber
  have hapart := prepared_onClimber.apart.sameShape hshape
  have hsegs : onClimber.HasSegments ["p"] := hasSegments_onVariants _
  obtain ⟨-, hname⟩ := className_climbing
  obtain ⟨place, hfile⟩ := hs.hasFile_classPath (d := .empty "../../../x") (by simp)
  have hplace : place = ["xBinding.java"] := by
    have hat := hfile.fileAt?
    rw [hshape.fileAt?, sameShape_withClimber.1.fileAt?, hname, isOutput_climbing.2] at hat
    exact (Option.some.inj hat).symm
  refine ⟨_, _, middle, final, hs.run_eq hapart, hsegs, hs, ?_, hplace ▸ hfile⟩
  rw [hname, hsegs.standsInPackage_iff]
  decide

end Command
end ResourceStubs
