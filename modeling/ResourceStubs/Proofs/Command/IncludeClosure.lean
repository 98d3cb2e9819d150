import ResourceStubs.Proofs.Command.Prepared

/-!
# The classes that binding classes refer to

A binding class names the class of every layout that its own layout includes.  Such a name
comes from a dependency, or it is the class that the included layout has in the module.
In the second case one would like that class to be written by the same run.

Three passes have a say in it.  The store knows the included layout if any of its files
is marked; the reading keeps the first of them; and the selection looks for the marker in
that one again.  The store and the selection disagree when a layout has a marked file
that is not its first.  `included_class_written_iff` says that this is the only way in
which a class can be lacking.
-/

namespace ResourceStubs
namespace Command

open Java

variable {c : Command} {tree middle final : Tree} {inputs : Inputs}
  {selected : List LayoutData} {d : LayoutData} {b : Binding}

/-- Is the first file of the layout marked? -/
def FirstIsMarked (c : Command) (tree : Tree) (layout : String) : Prop :=
  ∃ file, Layout.firstFile? c.layoutFiles layout = some file ∧ TypeStore.marks tree file = true

/-- Does the store of the module's own layouts know the layout? -/
def OwnKnows (c : Command) (tree : Tree) (layout : String) : Prop :=
  ∃ own, TypeStore.ofFiles c.package tree c.layoutFiles = .ok own ∧
    (own.get? layout).isSome = true

theorem ownKnows_iff {own : TypeStore}
    (hown : TypeStore.ofFiles c.package tree c.layoutFiles = .ok own) (layout : String) :
    c.OwnKnows tree layout ↔ (own.get? layout).isSome = true := by
  constructor
  · rintro ⟨own', hown', h⟩
    rwa [Except.ok.inj (hown.symm.trans hown')]
  · exact fun h => ⟨own, hown, h⟩

/-- A selected layout with bindings was read. -/
theorem Stages.mem_layouts (h : c.Stages tree inputs middle selected final)
    (hd : d ∈ selected) (hb : b ∈ d.bindings) : d ∈ inputs.layouts := by
  obtain ⟨_, _, _, -, -, hlayouts, -, -⟩ := readInputs_eq_ok_iff.1 h.read
  have hnodup := Layout.nodup_readFiles hlayouts
  rcases (Selection.mem_selected_iff hnodup h.select).1 hd with ⟨hmem, -⟩ | ⟨-, -, hempty⟩
  · exact hmem
  · rw [hempty] at hb
    exact absurd hb List.not_mem_nil

/-- **The type of an included layout** that is missing or known to the module is the class
that it has in the module. -/
theorem Stages.type_eq_localClass (h : c.Stages tree inputs middle selected final)
    (hd : d ∈ selected) (hb : b ∈ d.bindings) {layout : String} {missing : Bool}
    (hkind : b.kind = .included layout missing)
    (hown : missing = true ∨ c.OwnKnows tree layout) :
    b.type = LayoutData.localClass c.package layout := by
  obtain ⟨own, dependencies, _, hofFiles, -, hlayouts, -, -⟩ := readInputs_eq_ok_iff.1 h.read
  obtain ⟨file, -, hfile⟩ := (Layout.mem_readFiles_iff hlayouts).1 (h.mem_layouts hd hb)
  have htype := Layout.includedType_of_readFile hfile b hb layout missing hkind
  rw [Layout.includedType, LayoutTypes.get?] at htype
  cases hget : own.get? layout with
  | some t =>
      have ht := TypeStore.get?_ofFiles hofFiles layout
      rw [hget] at ht
      split at ht
      · rw [hget, Option.some_or] at htype
        rw [(Prod.mk.inj htype).1, Option.some.inj ht]
      · exact absurd ht (by simp)
  | none =>
      rw [hget, Option.none_or] at htype
      have hmissing : missing = true := by
        rcases hown with hmissing | hknows
        · exact hmissing
        · rw [ownKnows_iff hofFiles, hget] at hknows
          exact absurd hknows (by simp)
      cases hdep : dependencies.get? layout with
      | some t =>
          rw [hdep, hmissing] at htype
          exact absurd (Prod.mk.inj htype).2 (by simp)
      | none =>
          rw [hdep] at htype
          exact (Prod.mk.inj htype).1

/-- A layout that is missing somewhere is not known to the module. -/
theorem Stages.not_ownKnows_of_missing (h : c.Stages tree inputs middle selected final)
    {layout : String} (hmissing : layout ∈ inputs.layouts.flatMap LayoutData.missingLayouts) :
    ¬c.OwnKnows tree layout := by
  obtain ⟨own, dependencies, _, hofFiles, -, hlayouts, -, -⟩ := readInputs_eq_ok_iff.1 h.read
  obtain ⟨d, hd, hmissing⟩ := List.mem_flatMap.1 hmissing
  obtain ⟨b, hb, hlayout⟩ := List.mem_filterMap.1 hmissing
  obtain ⟨file, -, hfile⟩ := (Layout.mem_readFiles_iff hlayouts).1 hd
  have hkind : b.kind = .included layout true := by
    rw [Binding.missingLayout?] at hlayout
    split at hlayout
    · rename_i hkind
      rw [hkind, Option.some.inj hlayout]
    · exact absurd hlayout (by simp)
  have htype := Layout.includedType_of_readFile hfile b hb layout true hkind
  rw [Layout.includedType, LayoutTypes.get?] at htype
  rw [ownKnows_iff hofFiles]
  intro hknows
  obtain ⟨t, ht⟩ := Option.isSome_iff_exists.1 hknows
  rw [ht, Option.some_or] at htype
  exact absurd (Prod.mk.inj htype).2 (by simp)

/-- The last selection sees the markers that were there when the inputs were read. -/
theorem Stages.marks_withInterface (h : c.Stages tree inputs middle selected final)
    (hapart : c.LayoutsApart final) {file : Path} (hfile : file ∈ c.layoutFiles) :
    TypeStore.marks (c.withInterface middle) file = TypeStore.marks tree file := by
  obtain ⟨own, _, _, hofFiles, -⟩ := readInputs_eq_ok_iff.1 h.read
  obtain ⟨text, htext⟩ := (TypeStore.ofFiles_eq_ok_iff.1 hofFiles).1 file hfile
  rw [TypeStore.marks, TypeStore.marks, htext, (h.readText?_withInterface hapart hfile htext).2]

/-- **Which layouts get a class**: those whose first file is marked, and those that are
missing. -/
theorem Stages.exists_selected_iff (h : c.Stages tree inputs middle selected final)
    (hapart : c.LayoutsApart final) (layout : String) :
    (∃ e ∈ selected, e.layout = layout) ↔
      c.FirstIsMarked tree layout ∨
        layout ∈ inputs.layouts.flatMap LayoutData.missingLayouts := by
  obtain ⟨_, _, _, -, -, hlayouts, -, -⟩ := readInputs_eq_ok_iff.1 h.read
  rw [Selection.exists_selected_iff (Layout.nodup_readFiles hlayouts) h.select]
  refine or_congr_left ?_
  constructor
  · rintro ⟨e, he, rfl, hmarked⟩
    obtain ⟨file, hfirst, hfile⟩ := (Layout.mem_readFiles_iff hlayouts).1 he
    rw [Selection.isMarkedLayout, (Layout.layout_of_readFile hfile).2, Option.any_some,
      h.marks_withInterface hapart (List.mem_of_find?_eq_some hfirst)] at hmarked
    exact ⟨file, hfirst, hmarked⟩
  · rintro ⟨file, hfirst, hmarked⟩
    obtain ⟨e, he, hname, hefile⟩ := Layout.exists_of_firstFile? hlayouts hfirst
    refine ⟨e, he, hname, ?_⟩
    rw [Selection.isMarkedLayout, hefile, Option.any_some,
      h.marks_withInterface hapart (List.mem_of_find?_eq_some hfirst), hmarked]

/-- **Closure of local includes, and where it ends.**  Let a run succeed whose layout files
are apart from the classes of its tables and from the interface.  The file of every selected
class is there at the end.  An included layout that is missing, or known to the module, has
the type of its class in the module; and that class is written exactly when the layout is
missing, or its first file is marked, or another layout makes a class of the same name. -/
theorem included_class_written_iff {c : Command} {tree final : Tree} {s : Summary}
    (h : c.run tree = (.ok s, final)) (hapart : c.LayoutsApart final) :
    ∃ inputs middle selected, c.Stages tree inputs middle selected final ∧
      (∀ e ∈ selected, ∃ u ∈ c.bindingClasses selected,
        final.readText? (c.classPath e.className) = some u.source) ∧
      ∀ d ∈ selected, ∀ b ∈ d.bindings, ∀ layout missing, b.kind = .included layout missing →
        (missing = true ∨ c.OwnKnows tree layout) →
        b.type = LayoutData.localClass c.package layout ∧
        ((∃ e ∈ selected, e.className = Java.bindingClassName layout) ↔
          missing = true ∨ c.FirstIsMarked tree layout ∨
            ∃ e ∈ selected, e.layout ≠ layout ∧
              e.className = Java.bindingClassName layout) := by
  obtain ⟨inputs, middle, -, selected, hs, -⟩ := run_eq_ok_iff.1 h
  refine ⟨inputs, middle, selected, hs, fun e he => ?_, ?_⟩
  · have hmem : Stub.render c.package e ∈ c.bindingClasses selected :=
      List.mem_cons_of_mem _ (List.mem_map_of_mem he)
    have hread := CompilationUnit.exists_readText?_of_writeAll hs.bindings _ hmem
    rwa [pathBelow_render] at hread
  · intro d hd b hb layout missing hkind hown
    refine ⟨hs.type_eq_localClass hd hb hkind hown, ?_⟩
    have hselected := hs.exists_selected_iff hapart layout
    constructor
    · rintro ⟨e, he, hclass⟩
      by_cases hlayout : e.layout = layout
      · rcases hselected.1 ⟨e, he, hlayout⟩ with hfirst | hmissing
        · exact Or.inr (Or.inl hfirst)
        · exact Or.inl (hown.resolve_right (hs.not_ownKnows_of_missing hmissing))
      · exact Or.inr (Or.inr ⟨e, he, hlayout, hclass⟩)
    · rintro (hmissing | hfirst | ⟨e, he, -, hclass⟩)
      · have hmem : layout ∈ inputs.layouts.flatMap LayoutData.missingLayouts := by
          refine List.mem_flatMap.2 ⟨d, hs.mem_layouts hd hb, List.mem_filterMap.2 ⟨b, hb, ?_⟩⟩
          rw [Binding.missingLayout?, hkind, hmissing]
        obtain ⟨e, he, hlayout⟩ := hselected.2 (Or.inr hmem)
        exact ⟨e, he, by rw [LayoutData.className, hlayout]⟩
      · obtain ⟨e, he, hlayout⟩ := hselected.2 (Or.inl hfirst)
        exact ⟨e, he, by rw [LayoutData.className, hlayout]⟩
      · exact ⟨e, he, hclass⟩

/-! ## A layout in two variants -/

/-- A layout that includes `a`. -/
def includer : String :=
  "<layout><include android:id='@+id/i' layout='@layout/a'/></layout>"

/-- Two files of the layout `a`, of which the second is marked, a layout that includes `a`,
and the directories for the output. -/
def variants : Tree :=
  ⟨[(["layout"], .directory), (["layout-land"], .directory),
    (["layout", "a.xml"], .file (.text "<View/>")),
    (["layout-land", "a.xml"], .file (.text "<layout/>")),
    (["layout", "b.xml"], .file (.text includer)),
    (["r"], .directory), (["r", "p"], .directory),
    (["s"], .directory), (["s", "androidx"], .directory),
    (["s", "androidx", "databinding"], .directory),
    (["s", "p"], .directory), (["s", "p", "databinding"], .directory)], []⟩

/-- The unmarked variant of `a` first. -/
def plainFirst : List Path :=
  [⟨"layout/a.xml"⟩, ⟨"layout-land/a.xml"⟩, ⟨"layout/b.xml"⟩]

/-- The marked variant of `a` first. -/
def markedFirst : List Path :=
  [⟨"layout-land/a.xml"⟩, ⟨"layout/a.xml"⟩, ⟨"layout/b.xml"⟩]

/-- The command on the variants in some order. -/
def onVariants (files : List Path) : Command :=
  ⟨"p", [], files, [], [], true, ⟨"r"⟩, ⟨"s"⟩⟩

/-- What is read of a file of `a`. -/
def variant (file : Path) : LayoutData :=
  ⟨"a", some file, [], []⟩

/-- What is read of the layout that includes `a`. -/
def including : LayoutData :=
  ⟨"b", some ⟨"layout/b.xml"⟩, [⟨"i", LayoutData.localClass "p" "a", .included "a" false⟩], []⟩

theorem forall_mem_plainFirst {P : Path → Prop} (hplain : P ⟨"layout/a.xml"⟩)
    (hland : P ⟨"layout-land/a.xml"⟩) (hincluder : P ⟨"layout/b.xml"⟩) {files : List Path}
    (hfiles : files.Perm plainFirst) : ∀ file ∈ files, P file := by
  intro file hfile
  rcases List.mem_cons.1 (hfiles.mem_iff.1 hfile) with rfl | hfile
  · exact hplain
  · rcases List.mem_pair.1 hfile with rfl | rfl
    · exact hland
    · exact hincluder

theorem fileAt?_variants :
    variants.fileAt? ⟨"layout/a.xml"⟩ = some ["layout", "a.xml"] ∧
    variants.fileAt? ⟨"layout-land/a.xml"⟩ = some ["layout-land", "a.xml"] ∧
      variants.fileAt? ⟨"layout/b.xml"⟩ = some ["layout", "b.xml"] := by
  have hplain : variants.LiesIn ⟨"layout/a.xml"⟩ ["layout"] "a.xml" := by decide
  have hland : variants.LiesIn ⟨"layout-land/a.xml"⟩ ["layout-land"] "a.xml" := by
    decide
  have hincluder : variants.LiesIn ⟨"layout/b.xml"⟩ ["layout"] "b.xml" := by decide
  exact ⟨hplain.fileAt?_of_file rfl, hland.fileAt?_of_file rfl, hincluder.fileAt?_of_file rfl⟩

theorem readText?_variants :
    variants.readText? ⟨"layout/a.xml"⟩ = some "<View/>" ∧
    variants.readText? ⟨"layout-land/a.xml"⟩ = some "<layout/>" ∧
      variants.readText? ⟨"layout/b.xml"⟩ = some includer := by
  obtain ⟨hplain, hland, hincluder⟩ := fileAt?_variants
  exact ⟨Tree.readText?_eq_some_iff.2 ⟨_, hplain, rfl⟩,
    Tree.readText?_eq_some_iff.2 ⟨_, hland, rfl⟩, Tree.readText?_eq_some_iff.2 ⟨_, hincluder, rfl⟩⟩

theorem marks_variants :
    TypeStore.marks variants ⟨"layout/a.xml"⟩ = false ∧
    TypeStore.marks variants ⟨"layout-land/a.xml"⟩ = true ∧
      TypeStore.marks variants ⟨"layout/b.xml"⟩ = true := by
  obtain ⟨hplain, hland, hincluder⟩ := readText?_variants
  rw [TypeStore.marks, TypeStore.marks, TypeStore.marks, hplain, hland, hincluder]
  decide

theorem layoutOfFile_variants :
    LayoutData.layoutOfFile ⟨"layout/a.xml"⟩ = "a" ∧
    LayoutData.layoutOfFile ⟨"layout-land/a.xml"⟩ = "a" ∧
      LayoutData.layoutOfFile ⟨"layout/b.xml"⟩ = "b" := by
  decide

/-- The include tag of the layout that includes `a`. -/
def includeTag : Markup.Tag :=
  ⟨"include", ⟨[("android:id", "@+id/i"), ("layout", "@layout/a")]⟩⟩

theorem bindingOf_includeTag {types : LayoutTypes} (file : Path)
    (htype : types.get? "a" = some (LayoutData.localClass "p" "a")) :
    Layout.bindingOf "p" types file includeTag "i" =
      .ok ⟨"i", LayoutData.localClass "p" "a", .included "a" false⟩ := by
  have hlayout : Layout.includedLayout "@layout/a" = "a" := by decide
  have hincluded : Layout.includedType "p" types "a" =
      (LayoutData.localClass "p" "a", false) := by
    rw [Layout.includedType, htype]
  rw [Layout.bindingOf, if_pos (by decide)]
  refine bind_eq_ok_iff.2 ⟨"@layout/a", rfl, ?_⟩
  rw [hlayout]
  dsimp only
  rw [hincluded]
  rfl

theorem readFile_variants {types : LayoutTypes}
    (htype : types.get? "a" = some (LayoutData.localClass "p" "a")) :
    Layout.readFile "p" types variants ⟨"layout/a.xml"⟩ = .ok (variant ⟨"layout/a.xml"⟩) ∧
    Layout.readFile "p" types variants ⟨"layout-land/a.xml"⟩ =
      .ok (variant ⟨"layout-land/a.xml"⟩) ∧
    Layout.readFile "p" types variants ⟨"layout/b.xml"⟩ = .ok including := by
  have hplainTags : Markup.tagsOf (Markup.read "<View/>") = ⟨[⟨"View", ⟨[]⟩⟩], true⟩ := by
    decide +kernel
  have hlandTags : Markup.tagsOf (Markup.read "<layout/>") = ⟨[⟨"layout", ⟨[]⟩⟩], true⟩ := by
    decide +kernel
  have hincluderTags : Markup.tagsOf (Markup.read includer) =
      ⟨[⟨"layout", ⟨[]⟩⟩, includeTag], true⟩ := by decide +kernel
  obtain ⟨hplain, hland, hincluder⟩ := readText?_variants
  obtain ⟨hplainName, hlandName, hincluderName⟩ := layoutOfFile_variants
  refine ⟨?_, ?_, ?_⟩
  · rw [Layout.readFile_of_tags (s := .start) hplain hplainTags rfl, hplainName]
    rfl
  · rw [Layout.readFile_of_tags (s := .start) hland hlandTags rfl, hlandName]
    rfl
  · have hid : Layout.newId? includeTag = some "i" := by decide
    rw [Layout.readFile_of_newId hincluder hincluderTags (by decide) hid
      (bindingOf_includeTag _ htype), hincluderName]
    rfl

theorem ownKnows_variants {files : List Path} (hfiles : files.Perm plainFirst) :
    ∃ own, TypeStore.ofFiles "p" variants files = .ok own ∧
      own.get? "a" = some (LayoutData.localClass "p" "a") := by
  obtain ⟨hplain, hland, hincluder⟩ := readText?_variants
  have hread : ∀ file ∈ files, ∃ text, variants.readText? file = some text :=
    forall_mem_plainFirst ⟨_, hplain⟩ ⟨_, hland⟩ ⟨_, hincluder⟩ hfiles
  have hown : TypeStore.ofFiles "p" variants files = .ok _ :=
    TypeStore.ofFiles_eq_ok_iff.2 ⟨hread, rfl⟩
  refine ⟨_, hown, ?_⟩
  rw [TypeStore.get?_ofFiles hown, if_pos]
  exact ⟨⟨"layout-land/a.xml"⟩, hfiles.mem_iff.2 (by decide), layoutOfFile_variants.2.1,
    marks_variants.2.1⟩

/-- What is read of the variants, whatever their order. -/
theorem readInputs_onVariants {files : List Path} {parsed : List LayoutData}
    (hfiles : files.Perm plainFirst)
    (hparsed : ∀ types : LayoutTypes, types.get? "a" = some (LayoutData.localClass "p" "a") →
      files.mapM (Layout.readFile "p" types variants) = .ok parsed) :
    ∃ table, (onVariants files).readInputs variants =
      .ok ⟨firsts LayoutData.layout [] parsed, table⟩ := by
  obtain ⟨own, hown, hget⟩ := ownKnows_variants hfiles
  have htype : LayoutTypes.get? ⟨own, .empty⟩ "a" = some (LayoutData.localClass "p" "a") := by
    rw [LayoutTypes.get?, hget, Option.some_or]
  have hlayouts := Layout.readFiles_eq_ok_iff.2 ⟨parsed, hparsed _ htype, rfl⟩
  exact ⟨_, readInputs_eq_ok_iff.2 ⟨own, .empty, [], hown, rfl, hlayouts, rfl, rfl⟩⟩

/-- The places of the files that a run on the variants writes. -/
def outputPlaces (selected : List LayoutData) : List Place :=
  [["r", "p", "R.java"], ["r", "p", "BR.java"],
    ["s", "androidx", "databinding", "DataBindingComponent.java"]] ++
    selected.map fun d => ["s", "p", "databinding", d.className ++ ".java"]

/-- Can the path be written in the variants, and is this its place? -/
def IsOutput (path : Path) (place : Place) : Prop :=
  IsReady variants path ∧ variants.fileAt? path = some place

theorem isOutput_of_liesIn {path : Path} {front : List String} {name : String}
    (h : variants.LiesIn path front name ∧ (path.parent?.getD ⟨""⟩).segments = front ∧
      (path.parent?.getD ⟨""⟩).isAbsolute = false ∧
      variants.find? (front ++ [name]) = none ∧ Tree.nameFits name = true) :
    IsOutput path (front ++ [name]) := by
  obtain ⟨hlies, hfront, hrelative, hnone, hfits⟩ := h
  exact ⟨isReady_of_liesIn hlies ⟨hfront, hrelative⟩ hnone hfits, hlies.fileAt?_of_none hnone⟩

theorem isOutput_component : IsOutput (CompilationUnit.pathBelow Stub.component ⟨"s"⟩)
    (["s", "androidx", "databinding"] ++ ["DataBindingComponent.java"]) := by
  have hpath : CompilationUnit.pathBelow Stub.component ⟨"s"⟩ =
      ⟨"s/androidx/databinding/DataBindingComponent.java"⟩ := by decide
  rw [hpath]
  exact isOutput_of_liesIn (by decide)

theorem isOutput_earlyPaths (files : List Path) : ∀ path ∈ (onVariants files).earlyPaths,
    ∃ place ∈ outputPlaces [], IsOutput path place := by
  have hr : IsOutput ⟨"r/p/R.java"⟩ (["r", "p"] ++ ["R.java"]) :=
    isOutput_of_liesIn (by decide)
  have hbr : IsOutput ⟨"r/p/BR.java"⟩ (["r", "p"] ++ ["BR.java"]) :=
    isOutput_of_liesIn (by decide)
  have hpaths : (["R", "BR"].map fun name => CompilationUnit.pathBelow ⟨"p", name, ""⟩ ⟨"r"⟩) =
      [⟨"r/p/R.java"⟩, ⟨"r/p/BR.java"⟩] := by decide
  intro path hpath
  rcases List.mem_append.1 hpath with hpath | hpath
  · have hmem : path ∈ [(⟨"r/p/R.java"⟩ : Path), ⟨"r/p/BR.java"⟩] := hpaths ▸ hpath
    rcases List.mem_pair.1 hmem with rfl | rfl
    · exact ⟨_, by decide, hr⟩
    · exact ⟨_, by decide, hbr⟩
  · obtain rfl := List.mem_singleton.1 hpath
    exact ⟨_, by decide, isOutput_component⟩

theorem className_variants : (variant ⟨"layout-land/a.xml"⟩).className = "ABinding" ∧
    including.className = "BBinding" ∧ Java.bindingClassName "a" = "ABinding" := by
  decide

theorem isOutput_classPath (files : List Path) :
    IsOutput ((onVariants files).classPath "ABinding") ["s", "p", "databinding", "ABinding.java"] ∧
    IsOutput ((onVariants files).classPath "BBinding")
      ["s", "p", "databinding", "BBinding.java"] := by
  have hpaths : CompilationUnit.pathBelow ⟨Stub.packageOf "p", "ABinding", ""⟩ ⟨"s"⟩ =
      ⟨"s/p/databinding/ABinding.java"⟩ ∧
    CompilationUnit.pathBelow ⟨Stub.packageOf "p", "BBinding", ""⟩ ⟨"s"⟩ =
      ⟨"s/p/databinding/BBinding.java"⟩ := by decide
  have ha : IsOutput ⟨"s/p/databinding/ABinding.java"⟩
      (["s", "p", "databinding"] ++ ["ABinding.java"]) := isOutput_of_liesIn (by decide)
  have hb : IsOutput ⟨"s/p/databinding/BBinding.java"⟩
      (["s", "p", "databinding"] ++ ["BBinding.java"]) := isOutput_of_liesIn (by decide)
  rw [← hpaths.1] at ha
  rw [← hpaths.2] at hb
  exact ⟨ha, hb⟩

/-- Every output of a run on the variants is at one of the places. -/
theorem isOutput_paths (files : List Path) {selected : List LayoutData}
    (hselected : ∀ d ∈ selected, d = variant ⟨"layout-land/a.xml"⟩ ∨ d = including) :
    ∀ path ∈ (onVariants files).tablePaths ++ (onVariants files).bindingPaths selected,
      ∃ place ∈ outputPlaces selected, IsOutput path place := by
  obtain ⟨ha, hb⟩ := isOutput_classPath files
  obtain ⟨hclassA, hclassB, -⟩ := className_variants
  intro path hpath
  rcases List.mem_append.1 hpath with hpath | hpath
  · obtain ⟨place, hplace, hout⟩ := isOutput_earlyPaths files path (List.mem_append_left _ hpath)
    exact ⟨place, List.mem_append_left _ (by simpa [outputPlaces] using hplace), hout⟩
  · rcases List.mem_cons.1 hpath with rfl | hpath
    · exact ⟨_, List.mem_append_left _ (by decide), isOutput_component⟩
    · obtain ⟨d, hd, rfl⟩ := List.mem_map.1 hpath
      refine ⟨_, List.mem_append_right _ (List.mem_map_of_mem hd), ?_⟩
      rcases hselected d hd with rfl | rfl
      · rw [hclassA]
        exact ha
      · rw [hclassB]
        exact hb

/-- A tree in which the same can be written as in the variants is prepared for a command
with their outputs, if no layout file is at the place of an output. -/
theorem prepared_of_sameShape {tree : Tree} (hshape : variants.SameShape tree) {c : Command}
    (hpaths : c.earlyPaths = (onVariants []).earlyPaths) {selected : List LayoutData}
    (hclasses : ∀ d ∈ selected, ∃ place, IsOutput (c.classPath d.className) place)
    (hfiles : ∀ file ∈ c.layoutFiles, ∀ place ∈ outputPlaces [],
      variants.fileAt? file ≠ some place) : c.Prepared tree selected := by
  have hearly : ∀ path ∈ c.earlyPaths, ∃ place ∈ outputPlaces [], IsOutput path place := by
    rw [hpaths]
    exact isOutput_earlyPaths []
  refine ⟨fun path hpath => ?_, fun path hpath => ?_, fun file hfile path hpath => ?_⟩
  · obtain ⟨place, -, hout⟩ := hearly path (List.mem_append_left _ hpath)
    exact hout.1.sameShape hshape
  · rcases List.mem_cons.1 hpath with rfl | hpath
    · obtain ⟨place, -, hout⟩ :=
        hearly _ (List.mem_append_right _ (List.mem_singleton_self _))
      exact hout.1.sameShape hshape
    · obtain ⟨d, hd, rfl⟩ := List.mem_map.1 hpath
      obtain ⟨place, hout⟩ := hclasses d hd
      exact hout.1.sameShape hshape
  · obtain ⟨place, hplace, hout⟩ := hearly path hpath
    rw [hshape.fileAt?, hshape.fileAt?, hout.2]
    exact (hfiles file hfile place hplace).symm

/-- The classes of the marked layouts are outputs. -/
theorem exists_isOutput_className (files : List Path) {d : LayoutData}
    (hd : d = variant ⟨"layout-land/a.xml"⟩ ∨ d = including) :
    ∃ place, IsOutput ((onVariants files).classPath d.className) place := by
  obtain ⟨ha, hb⟩ := isOutput_classPath files
  obtain ⟨hclassA, hclassB, -⟩ := className_variants
  rcases hd with rfl | rfl
  · exact ⟨_, hclassA ▸ ha⟩
  · exact ⟨_, hclassB ▸ hb⟩

/-- No variant is at the place of an output. -/
theorem fileAt?_ne_of_mem_outputPlaces {files : List Path} (hfiles : files.Perm plainFirst) :
    ∀ file ∈ files, ∀ place ∈ outputPlaces [], variants.fileAt? file ≠ some place := by
  obtain ⟨hplain, hland, hincluder⟩ := fileAt?_variants
  refine forall_mem_plainFirst (P := fun file => ∀ place ∈ outputPlaces [],
    variants.fileAt? file ≠ some place) ?_ ?_ ?_ hfiles
  · rw [hplain]
    decide
  · rw [hland]
    decide
  · rw [hincluder]
    decide

theorem prepared_onVariants {files : List Path} (hfiles : files.Perm plainFirst)
    {selected : List LayoutData}
    (hselected : ∀ d ∈ selected, d = variant ⟨"layout-land/a.xml"⟩ ∨ d = including) :
    (onVariants files).Prepared variants selected :=
  prepared_of_sameShape (c := onVariants files) (.refl _) rfl
    (fun d hd => exists_isOutput_className files (hselected d hd))
    (fileAt?_ne_of_mem_outputPlaces hfiles)

theorem exists_stages_onVariants {files : List Path} {parsed selected : List LayoutData}
    (hfiles : files.Perm plainFirst)
    (hparsed : ∀ types : LayoutTypes, types.get? "a" = some (LayoutData.localClass "p" "a") →
      files.mapM (Layout.readFile "p" types variants) = .ok parsed)
    (hselect : Selection.all variants (firsts LayoutData.layout [] parsed) = .ok selected)
    (hselected : ∀ d ∈ selected, d = variant ⟨"layout-land/a.xml"⟩ ∨ d = including) :
    ∃ table middle final, (onVariants files).Stages variants
      ⟨firsts LayoutData.layout [] parsed, table⟩ middle selected final ∧
      (onVariants files).LayoutsApart final ∧ variants.SameShape final ∧
      ∀ place, place ∉ outputPlaces selected → final.find? place = variants.find? place := by
  obtain ⟨table, hread⟩ := readInputs_onVariants hfiles hparsed
  have hprepared := prepared_onVariants hfiles hselected
  obtain ⟨middle, final, hs, hshape, hkeep⟩ :=
    exists_stages_of_prepared hread hselect hprepared
  refine ⟨table, middle, final, hs, hprepared.apart.sameShape hshape, hshape,
    fun place hplace => hkeep place fun path hpath hat => ?_⟩
  obtain ⟨other, hother, hout⟩ := isOutput_paths files hselected path hpath
  rw [hout.2, Option.some.injEq] at hat
  exact hplace (hat ▸ hother)

theorem isMarkedLayout_variants :
    Selection.isMarkedLayout variants (variant ⟨"layout/a.xml"⟩) = false ∧
    Selection.isMarkedLayout variants (variant ⟨"layout-land/a.xml"⟩) = true ∧
      Selection.isMarkedLayout variants including = true :=
  marks_variants

/-- The selection from the layout that includes `a`, and a variant of `a`. -/
theorem all_variants {file : Path} (hfile : ∃ text, variants.readText? file = some text) :
    Selection.all variants [variant file, including] =
      .ok (if Selection.isMarkedLayout variants (variant file) then [variant file, including]
        else [including]) := by
  have hnodup : (([variant file, including]).map LayoutData.layout).Nodup := by
    show ["a", "b"].Nodup
    decide
  refine (Selection.all_eq_ok_iff hnodup).2 ⟨fun d hd path hpath => ?_, ?_⟩
  · rcases List.mem_pair.1 hd with rfl | rfl
    · rw [← Option.some.inj hpath]
      exact hfile
    · rw [← Option.some.inj hpath]
      exact ⟨_, readText?_variants.2.2⟩
  · obtain ⟨-, -, hincluding⟩ := isMarkedLayout_variants
    rw [List.filter_cons, List.filter_cons_of_pos hincluding, List.filter_nil]
    rfl

/-- With the unmarked variant first, no class is written for `a`. -/
theorem exists_stages_plainFirst : ∃ inputs middle final,
    (onVariants plainFirst).Stages variants inputs middle [including] final ∧
      (onVariants plainFirst).LayoutsApart final ∧ inputs.layouts.length = 2 ∧
      final.readText? ((onVariants plainFirst).classPath "ABinding") = none := by
  have hparsed : ∀ types : LayoutTypes, types.get? "a" = some (LayoutData.localClass "p" "a") →
      plainFirst.mapM (Layout.readFile "p" types variants) =
        .ok [variant ⟨"layout/a.xml"⟩, variant ⟨"layout-land/a.xml"⟩, including] := by
    intro types htype
    obtain ⟨hplain, hland, hincluder⟩ := readFile_variants htype
    exact mapM_eq_ok_iff.2 (.cons hplain (.cons hland (.cons hincluder .nil)))
  have hselect := all_variants ⟨_, readText?_variants.1⟩
  rw [isMarkedLayout_variants.1, if_neg (by decide)] at hselect
  obtain ⟨table, middle, final, hs, hapart, hshape, hkeep⟩ :=
    exists_stages_onVariants (.refl _) hparsed hselect fun d hd => Or.inr (List.mem_singleton.1 hd)
  refine ⟨_, middle, final, hs, hapart, rfl,
    Option.eq_none_iff_forall_ne_some.2 fun text htext => ?_⟩
  obtain ⟨place, hplace, hfind⟩ := Tree.readText?_eq_some_iff.1 htext
  rw [hshape.fileAt?, (isOutput_classPath plainFirst).1.2, Option.some.injEq] at hplace
  have hnone : variants.find? ["s", "p", "databinding", "ABinding.java"] = none := rfl
  rw [← hplace, hkeep _ (by decide), hnone] at hfind
  exact absurd hfind (by simp)

/-- With the marked variant first, a class is written for `a`. -/
theorem exists_stages_markedFirst : ∃ inputs middle final,
    (onVariants markedFirst).Stages variants inputs middle
      [variant ⟨"layout-land/a.xml"⟩, including] final ∧
      (onVariants markedFirst).LayoutsApart final ∧ variants.SameShape final := by
  have hparsed : ∀ types : LayoutTypes, types.get? "a" = some (LayoutData.localClass "p" "a") →
      markedFirst.mapM (Layout.readFile "p" types variants) =
        .ok [variant ⟨"layout-land/a.xml"⟩, variant ⟨"layout/a.xml"⟩, including] := by
    intro types htype
    obtain ⟨hplain, hland, hincluder⟩ := readFile_variants htype
    exact mapM_eq_ok_iff.2 (.cons hland (.cons hplain (.cons hincluder .nil)))
  have hselect := all_variants ⟨_, readText?_variants.2.1⟩
  rw [isMarkedLayout_variants.2.1, if_pos rfl] at hselect
  obtain ⟨table, middle, final, hs, hapart, hshape, -⟩ :=
    exists_stages_onVariants (.swap _ _ _) hparsed hselect fun d hd => List.mem_pair.1 hd
  exact ⟨_, middle, final, hs, hapart, hshape⟩

/-- **A class that is not there is referred to.**  The store knows `a` by its second file,
and the selection looks at the first. -/
theorem included_class_lacking : ∃ s inputs middle final,
    (onVariants plainFirst).run variants = (.ok s, final) ∧
    (onVariants plainFirst).LayoutsApart final ∧
    (onVariants plainFirst).Stages variants inputs middle [including] final ∧
    (onVariants plainFirst).OwnKnows variants "a" ∧
    including.bindings = [⟨"i", LayoutData.localClass "p" "a", .included "a" false⟩] ∧
    final.readText? ((onVariants plainFirst).classPath (Java.bindingClassName "a")) = none := by
  obtain ⟨inputs, middle, final, hs, hapart, -, hnone⟩ := exists_stages_plainFirst
  obtain ⟨own, hown, hget⟩ := ownKnows_variants (.refl _)
  refine ⟨_, inputs, middle, final, hs.run_eq hapart, hapart, hs,
    ⟨own, hown, by rw [hget]; rfl⟩, rfl, ?_⟩
  rw [className_variants.2.2, hnone]

/-- With the marked file first, the class of the included layout is there. -/
theorem included_class_written_markedFirst : ∃ s final,
    (onVariants markedFirst).run variants = (.ok s, final) ∧
    (onVariants markedFirst).LayoutsApart final ∧
    including.bindings = [⟨"i", LayoutData.localClass "p" "a", .included "a" false⟩] ∧
    ∃ u ∈ (onVariants markedFirst).bindingClasses [variant ⟨"layout-land/a.xml"⟩, including],
      final.readText? ((onVariants markedFirst).classPath (Java.bindingClassName "a")) =
        some u.source := by
  obtain ⟨inputs, middle, final, hs, hapart, -⟩ := exists_stages_markedFirst
  have hrun := hs.run_eq hapart
  obtain ⟨inputs', middle', selected', hs', hwritten, hclosed⟩ :=
    included_class_written_iff hrun hapart
  obtain ⟨-, -, rfl⟩ := hs.unique hs'
  obtain ⟨own, hown, hget⟩ := ownKnows_variants (.swap _ _ _)
  have hfirst : (onVariants markedFirst).FirstIsMarked variants "a" := by
    refine ⟨⟨"layout-land/a.xml"⟩, ?_, marks_variants.2.1⟩
    rw [Layout.firstFile?]
    exact List.find?_cons_of_pos (beq_iff_eq.2 layoutOfFile_variants.2.1)
  have hclass := hclosed including (by simp) _ (List.mem_singleton_self _) "a" false rfl
    (Or.inr ⟨own, hown, by rw [hget]; rfl⟩)
  obtain ⟨e, he, hname⟩ := hclass.2.2 (Or.inr (Or.inl hfirst))
  obtain ⟨u, hu, htext⟩ := hwritten e he
  exact ⟨_, final, hrun, hapart, rfl, u, hu, by rw [← hname, htext]⟩

end Command
end ResourceStubs
