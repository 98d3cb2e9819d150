import ResourceStubs.Proofs.Binding.IncludedTypes
import ResourceStubs.Proofs.Command.IncludeClosure
import ResourceStubs.Proofs.Symbol.DependencyLines

/-!
# Inputs that come again

Explicit inputs and discovered ones are put behind each other, so a file can be given
twice.  A run does not notice: every list that it reads is read from its front, and a file
that comes again brings nothing that is not there.

* The stores keep the first type of a layout, and the types of a file that has been read
  are there (`TypeStore.ofFiles_append`, `TypeStore.ofClassInfos_append`).
* Of the files of one layout the first is kept (`Layout.readFiles_append`).
* Resource files are merged in the order of their places, and merging a table again
  changes nothing (`Collect.all_append_files`).
* A line that has come before adds nothing (`Collect.all_append_lines`).  This is what
  repeated symbol lists come to, since they do give more lines.

Each of these is an equation, so it also says that a list that cannot be read fails with
its repetitions as it does without them.  `run_withMore` puts them together: the run is the
same in its result and in the tree that it leaves.  A file may come again in another
spelling, as long as the spelling is one under which it can be found; that the path is
literally in the list is a case of this (`Repeats.of_subset`).
-/

namespace ResourceStubs

/-- Every path of `again` is one of `known`, up to its spelling, and is found under it. -/
def Repeats (tree : Tree) (known again : List Path) : Prop :=
  ∀ p ∈ again, ∃ q ∈ known, q.same p = true ∧ tree.readText? q = tree.readText? p

variable {tree : Tree} {known again : List Path}

theorem Repeats.of_subset (h : again ⊆ known) : Repeats tree known again :=
  fun p hp => ⟨p, h hp, Path.same_iff.2 rfl, rfl⟩

theorem LayoutData.layoutOfFile_congr {p q : Path} (h : p.components = q.components) :
    layoutOfFile p = layoutOfFile q := by
  rw [layoutOfFile, layoutOfFile, Path.fileName?_congr h]

/-! ## The stores -/

namespace TypeStore

variable {package : String} {s : TypeStore}

theorem insert_eq_self {layout : String} (h : (s.get? layout).isSome) (type : JavaType) :
    s.insert layout type = s :=
  if_pos h

/-- A file that comes again adds nothing to the module's own layouts. -/
theorem ofFiles_append (h : Repeats tree known again) :
    ofFiles package tree (known ++ again) = ofFiles package tree known := by
  refine foldlM_append_eq_left fun own hown p hp => ?_
  have hown' : ofFiles package tree known = .ok own := hown
  obtain ⟨q, hq, hsame, htext⟩ := h p hp
  obtain ⟨text, hread⟩ := (ofFiles_eq_ok_iff.1 hown').1 q hq
  refine addFile_eq_ok_iff.2 ⟨⟨text, htext ▸ hread⟩, ?_⟩
  rw [addMarked]
  split
  · rename_i hmarks
    have hregisters : Registers tree known (LayoutData.layoutOfFile p) :=
      ⟨q, hq, LayoutData.layoutOfFile_congr (Path.same_iff.1 hsame), by
        rwa [marks, htext]⟩
    refine (insert_eq_self ?_ _).symm
    rw [get?_ofFiles hown', if_pos hregisters]
    rfl
  · rfl

/-- Known are the layouts that were known, and those that have come. -/
theorem isSome_get?_addMappings (s : TypeStore) (mappings : List (String × String))
    (layout : String) : ((s.addMappings mappings).get? layout).isSome ↔
      (s.get? layout).isSome ∨ layout ∈ mappings.map Prod.fst := by
  rw [get?_addMappings, Option.isSome_or, Bool.or_eq_true, Option.isSome_map,
    List.lookup_isSome_iff]
  simp

theorem addMappings_eq_self {mappings : List (String × String)}
    (h : ∀ x ∈ mappings, (s.get? x.1).isSome) : s.addMappings mappings = s := by
  induction mappings with
  | nil => rfl
  | cons x mappings ih =>
      show (s.insert x.1 (.named x.2)).addMappings mappings = s
      rw [insert_eq_self (h x List.mem_cons_self)]
      exact ih fun y hy => h y (List.mem_cons_of_mem _ hy)

/-- What a class info publishes is known once it has been read. -/
theorem exists_mappings_of_ofClassInfos (h : ofClassInfos tree known = .ok s) {file : Path}
    (hfile : file ∈ known) : ∃ text mappings, tree.readText? file = some text ∧
      ClassInfo.read? text = some mappings ∧ ∀ x ∈ mappings, (s.get? x.1).isSome := by
  refine foldlM_of_mem (f := addClassInfo tree) (P := fun s => ∃ text mappings,
    tree.readText? file = some text ∧ ClassInfo.read? text = some mappings ∧
      ∀ x ∈ mappings, (s.get? x.1).isSome) h hfile (fun b c hc => ?_) ?_
  · obtain ⟨text, mappings, hread, hmappings, rfl⟩ := addClassInfo_eq_ok_iff.1 hc
    exact ⟨text, mappings, hread, hmappings, fun x hx =>
      (isSome_get?_addMappings _ _ _).2 (Or.inr (List.mem_map_of_mem hx))⟩
  · rintro b ⟨text, mappings, hread, hmappings, hb⟩ y hy c hc
    obtain ⟨_, _, -, -, rfl⟩ := addClassInfo_eq_ok_iff.1 hc
    exact ⟨text, mappings, hread, hmappings, fun x hx =>
      (isSome_get?_addMappings _ _ _).2 (Or.inl (hb x hx))⟩

/-- A class info that comes again adds nothing. -/
theorem ofClassInfos_append (h : Repeats tree known again) :
    ofClassInfos tree (known ++ again) = ofClassInfos tree known := by
  refine foldlM_append_eq_left fun s hs p hp => ?_
  obtain ⟨q, hq, -, htext⟩ := h p hp
  obtain ⟨text, mappings, hread, hmappings, hknown⟩ := exists_mappings_of_ofClassInfos hs hq
  exact addClassInfo_eq_ok_iff.2
    ⟨text, mappings, htext ▸ hread, hmappings, (addMappings_eq_self hknown).symm⟩

end TypeStore

/-! ## The layouts -/

namespace Layout

open Markup

variable {package : String} {types : LayoutTypes} {p q : Path} {tag : Tag}

theorem required_ok_congr (q : Path) {name value : String}
    (h : required p tag name = .ok value) : required q tag name = .ok value := by
  unfold required at h ⊢
  split at h
  · exact h
  · cases h

theorem resolveIn_ok_congr (q : Path) {aliases : Aliases} {expression : String} {t : JavaType}
    (h : resolveIn p tag aliases expression = .ok t) :
    resolveIn q tag aliases expression = .ok t := by
  unfold resolveIn at h ⊢
  split at h
  · exact h
  · cases h

theorem bindingOf_ok_congr (q : Path) {rawName : String} {b : Binding}
    (h : bindingOf package types p tag rawName = .ok b) :
    bindingOf package types q tag rawName = .ok b := by
  unfold bindingOf at h ⊢
  split at h
  · rename_i hinclude
    obtain ⟨reference, hreference, h⟩ := bind_eq_ok_iff.1 h
    rw [if_pos hinclude]
    exact bind_eq_ok_iff.2 ⟨reference, required_ok_congr q hreference, h⟩
  · rename_i hinclude
    rw [if_neg hinclude]
    exact h

/-- What a tag is read as does not depend on the file, which failures alone name. -/
theorem readTag_ok_congr (q : Path) {s s' : LayoutState}
    (h : readTag package types p s tag = .ok s') : readTag package types q s tag = .ok s' := by
  rw [readTag_eq_ok_iff] at h ⊢
  cases h with
  | imported hname expression type hexpression htype =>
      exact .imported hname expression type (required_ok_congr q hexpression)
        (resolveIn_ok_congr q htype)
  | declared hname rawName expression type hrawName hexpression htype =>
      exact .declared hname rawName expression type (required_ok_congr q hrawName)
        (required_ok_congr q hexpression) (resolveIn_ok_congr q htype)
  | unnamed hname hid => exact .unnamed hname hid
  | bound hname rawName hid b hb => exact .bound hname rawName hid b (bindingOf_ok_congr q hb)

/-- A file can be read under another spelling of its path, and holds the same layout. -/
theorem exists_readFile_congr (hpq : p.components = q.components)
    (htext : tree.readText? p = tree.readText? q) {d : LayoutData}
    (h : readFile package types tree p = .ok d) :
    ∃ e, readFile package types tree q = .ok e ∧ e.layout = d.layout := by
  obtain ⟨contents, hread, h⟩ := readFile_eq_ok_iff.1 h
  obtain ⟨s, hs, hwhole, rfl⟩ := readTags_eq_ok_iff.1 h
  refine ⟨⟨LayoutData.layoutOfFile q, some q, s.bindings, s.bindables⟩,
    readFile_eq_ok_iff.2 ⟨contents, htext ▸ hread, readTags_eq_ok_iff.2 ⟨s, ?_, hwhole, rfl⟩⟩,
    (LayoutData.layoutOfFile_congr hpq).symm⟩
  exact foldlM_ok_congr (fun _ _ _ h => readTag_ok_congr q h) hs

/-- A layout file that comes again is passed over. -/
theorem readFiles_append (h : Repeats tree known again) :
    readFiles package types tree (known ++ again) = readFiles package types tree known := by
  rw [readFiles, readFiles, List.mapM_append]
  cases hknown : known.mapM (readFile package types tree) with
  | error e => rfl
  | ok parsed =>
      have hrepeated : ∀ p ∈ again, ∃ d, readFile package types tree p = .ok d ∧
          d.layout ∈ parsed.map LayoutData.layout := by
        intro p hp
        obtain ⟨q, hq, hsame, htext⟩ := h p hp
        obtain ⟨d, hd, hread⟩ := exists_of_mapM_eq_ok hknown hq
        obtain ⟨e, he, hlayout⟩ := exists_readFile_congr (Path.same_iff.1 hsame) htext hread
        exact ⟨e, he, hlayout ▸ List.mem_map_of_mem hd⟩
      obtain ⟨more, hmore⟩ :=
        exists_mapM_eq_ok fun p hp => (hrepeated p hp).imp fun d hd => hd.1
      rw [hmore]
      show Except.ok (firsts LayoutData.layout [] (parsed ++ more)) =
        Except.ok (firsts LayoutData.layout [] parsed)
      rw [firsts, List.foldl_append]
      refine congrArg Except.ok (firsts_eq_self fun e he => ?_)
      obtain ⟨p, hp, hread⟩ := (mem_of_mapM_eq_ok hmore).1 he
      obtain ⟨d, hd, hlayout⟩ := hrepeated p hp
      obtain rfl : d = e := Except.ok.inj (hd.symm.trans hread)
      exact mem_map_firsts_iff.2 (Or.inr hlayout)

end Layout

/-! ## The symbols -/

namespace Collect

variable {registry : Registry} {nonTransitive : Bool} {lines more : List String}

/-- **Lines that have come before add nothing.** -/
theorem all_append_lines {files : List Path} (h : more ⊆ lines) :
    all registry nonTransitive tree files (lines ++ more) =
      all registry nonTransitive tree files lines := by
  unfold all
  refine bind_congr fun tables => ?_
  split
  · rfl
  · exact foldlM_append_eq_left fun t ht line hline =>
      addLine_eq_self (wellFormed_merged tables).resize ht (h hline)

/-- **Resource files that come again add nothing.**  Their tables are merged next to those
that they repeat, and what they hold is there. -/
theorem all_append_files (h : Repeats tree known again) :
    all registry nonTransitive tree (known ++ again) lines =
      all registry nonTransitive tree known lines := by
  cases hknown : known.mapM (located registry tree) with
  | error e =>
      rw [all, all, List.mapM_append, hknown]
      rfl
  | ok tables =>
      obtain ⟨tables', htables'⟩ :
          ∃ tables', (known ++ again).mapM (located registry tree) = .ok tables' := by
        refine exists_mapM_eq_ok fun p hp => ?_
        rcases List.mem_append.1 hp with hp | hp
        · obtain ⟨x, -, hx⟩ := exists_of_mapM_eq_ok hknown hp
          exact ⟨x, hx⟩
        · obtain ⟨q, hq, hsame, htext⟩ := h p hp
          obtain ⟨x, -, hx⟩ := exists_of_mapM_eq_ok hknown hq
          have hfile := file_congr (Path.same_iff.1 hsame) (fun _ => htext)
            (located_eq_ok_iff.1 hx).2
          exact ⟨(p, x.2), located_eq_ok_iff.2 ⟨rfl, hfile⟩⟩
      -- without lines, the two lists come to one table
      have hown : (merged tables').resize = (merged tables).resize := by
        have hall : all registry true tree known [] = .ok (merged tables).resize :=
          bind_eq_ok_iff.2 ⟨tables, hknown, rfl⟩
        have hall' := all_eq_of_same_places
          (fun p hp => ⟨p, List.mem_append_left _ hp, rfl⟩) (fun q hq => ?_) htables' hall
        · obtain ⟨_, htables, hresize⟩ := bind_eq_ok_iff.1 hall'
          rw [← Except.ok.inj (htables'.symm.trans htables)] at hresize
          exact Except.ok.inj hresize
        · rcases List.mem_append.1 hq with hq | hq
          · exact ⟨q, hq, rfl⟩
          · obtain ⟨p, hp, hsame, -⟩ := h q hq
            exact ⟨p, hp, Path.same_iff.1 hsame⟩
      rw [all, all, htables', hknown]
      show (if nonTransitive then Except.ok (merged tables').resize
          else addLines (merged tables').resize lines) =
        if nonTransitive then Except.ok (merged tables).resize
          else addLines (merged tables).resize lines
      rw [hown]

end Collect

/-! ## The run -/

namespace Command

variable {c : Command} {resourceFiles layoutFiles classInfos symbolLists : List Path}

/-- The command with more paths behind those of its lists. -/
def withMore (c : Command) (resourceFiles layoutFiles classInfos symbolLists : List Path) :
    Command :=
  { c with
    resourceFiles := c.resourceFiles ++ resourceFiles
    layoutFiles := c.layoutFiles ++ layoutFiles
    classInfos := c.classInfos ++ classInfos
    symbolLists := c.symbolLists ++ symbolLists }

/-- Symbol lists that come again give more lines, but none that were not there. -/
theorem dependencyLines_append {β : Type} {f : List String → Except Failure β}
    (h : Repeats tree known again)
    (hf : ∀ lines more, more ⊆ lines → f (lines ++ more) = f lines) :
    dependencyLines tree (known ++ again) >>= f = dependencyLines tree known >>= f := by
  rw [dependencyLines, dependencyLines, List.mapM_append]
  cases hknown : known.mapM tree.read with
  | error e => rfl
  | ok texts =>
      have hrepeated : ∀ p ∈ again, ∃ text ∈ texts, tree.read p = .ok text := by
        intro p hp
        obtain ⟨q, hq, -, htext⟩ := h p hp
        obtain ⟨text, hmem, hread⟩ := exists_of_mapM_eq_ok hknown hq
        rw [Tree.read_eq_ok_iff, htext, ← Tree.read_eq_ok_iff] at hread
        exact ⟨text, hmem, hread⟩
      obtain ⟨more, hmore⟩ :=
        exists_mapM_eq_ok fun p hp => (hrepeated p hp).imp fun text h => h.2
      rw [hmore]
      show f ((texts ++ more).flatMap linesOf) = f (texts.flatMap linesOf)
      rw [List.flatMap_append]
      refine hf _ _ fun line hline => ?_
      obtain ⟨text, htext, hline⟩ := List.mem_flatMap.1 hline
      obtain ⟨p, hp, hread⟩ := (mem_of_mapM_eq_ok hmore).1 htext
      obtain ⟨text', htext', hread'⟩ := hrepeated p hp
      rw [Except.ok.inj (hread.symm.trans hread')] at hline
      exact List.mem_flatMap.2 ⟨text', htext', hline⟩

/-- The lists of inputs are not looked at when outputs are written. -/
theorem writeOutputs_withMore (inputs : Inputs) (tree : Tree) :
    (c.withMore resourceFiles layoutFiles classInfos symbolLists).writeOutputs inputs tree =
      c.writeOutputs inputs tree := by
  unfold writeOutputs tableClasses writeBindings withMore
  with_reducible rfl

/-- **The same is read.** -/
theorem readInputs_withMore (hresources : Repeats tree c.resourceFiles resourceFiles)
    (hlayouts : Repeats tree c.layoutFiles layoutFiles)
    (hinfos : Repeats tree c.classInfos classInfos)
    (hlists : Repeats tree c.symbolLists symbolLists) :
    (c.withMore resourceFiles layoutFiles classInfos symbolLists).readInputs tree =
      c.readInputs tree := by
  simp only [readInputs, withMore, TypeStore.ofFiles_append hlayouts,
    TypeStore.ofClassInfos_append hinfos, Layout.readFiles_append hlayouts,
    Collect.all_append_files hresources]
  refine bind_congr fun own => bind_congr fun dependencies => bind_congr fun layouts => ?_
  exact dependencyLines_append hlists fun lines more hmore => by
    rw [Collect.all_append_lines hmore]

/-- **Inputs that come again are harmless.**  Put behind each list of a command paths that
are in it already.  The run is the same: it succeeds if it did, with the same summary, and
it leaves the same tree. -/
theorem run_withMore {c : Command} {tree : Tree}
    {resourceFiles layoutFiles classInfos symbolLists : List Path}
    (hresources : Repeats tree c.resourceFiles resourceFiles)
    (hlayouts : Repeats tree c.layoutFiles layoutFiles)
    (hinfos : Repeats tree c.classInfos classInfos)
    (hlists : Repeats tree c.symbolLists symbolLists) :
    (c.withMore resourceFiles layoutFiles classInfos symbolLists).run tree = c.run tree := by
  unfold run
  rw [readInputs_withMore hresources hlayouts hinfos hlists]
  cases c.readInputs tree with
  | error e => rfl
  | ok inputs => exact writeOutputs_withMore inputs tree

/-! ## A run with all its inputs twice -/

/-- What a dependency publishes. -/
def published : String :=
  "\x7b\"mappings\": \x7b\"c\": \x7b\"qualified_name\": \"q.CBinding\"\x7d\x7d\x7d"

/-- The variants with a class info and a symbol list. -/
def withDependency : Tree :=
  (variants.put ["layout", "info.json"] (.file (.text published))).put ["layout", "R.txt"]
    (.file (.text "int string s 0"))

/-- The command on the variants, with a resource file and the dependency. -/
def onDependency : Command :=
  { onVariants markedFirst with
    resourceFiles := [⟨"layout/b.xml"⟩]
    classInfos := [⟨"layout/info.json"⟩]
    symbolLists := [⟨"layout/R.txt"⟩]
    nonTransitive := false }

/-- Both are files now, and what could be written before can be written still. -/
theorem sameShape_withDependency : variants.SameShape withDependency ∧
    variants.fileAt? ⟨"layout/info.json"⟩ = some ["layout", "info.json"] ∧
    variants.fileAt? ⟨"layout/R.txt"⟩ = some ["layout", "R.txt"] := by
  have hinfo : variants.LiesIn ⟨"layout/info.json"⟩ ["layout"] "info.json" := by decide
  have hlist : variants.LiesIn ⟨"layout/R.txt"⟩ ["layout"] "R.txt" := by decide
  have hplace : variants.Writable ⟨"layout/info.json"⟩ ["layout", "info.json"] :=
    ⟨hinfo.fileAt?_of_none rfl, fun _ => by decide⟩
  have hplace' : variants.Writable ⟨"layout/R.txt"⟩ ["layout", "R.txt"] :=
    ⟨hlist.fileAt?_of_none rfl, fun _ => by decide⟩
  have hshape := hplace.sameShape_put (.text published)
  have hshape' := ((hshape.writable _ _).2 hplace').sameShape_put (.text "int string s 0")
  exact ⟨hshape.trans hshape', hplace.1, hplace'.1⟩

theorem readText?_withDependency :
    (∀ file ∈ markedFirst, withDependency.readText? file = variants.readText? file) ∧
    withDependency.readText? ⟨"layout//b.xml"⟩ = some includer ∧
    withDependency.readText? ⟨"layout/info.json"⟩ = some published ∧
    withDependency.readText? ⟨"layout/R.txt"⟩ = some "int string s 0" := by
  obtain ⟨hshape, hinfo, hlist⟩ := sameShape_withDependency
  obtain ⟨hplainAt, hlandAt, hincluderAt⟩ := fileAt?_variants
  obtain ⟨hplain, hland, hincluder⟩ := readText?_variants
  rw [← hshape.fileAt?] at hinfo hlist hplainAt hlandAt hincluderAt
  have hslashes : withDependency.locate Tree.linkLimit [] ["layout", "", "b.xml"] =
      some (.found ["layout", "b.xml"] (.file (.text includer))) := by
    rw [Tree.locate_of_directory (by decide) (by decide) rfl,
      Tree.locate_cons_of_isIdle (by decide),
      Tree.locate_of_file (by decide) (by decide) rfl]
    rfl
  refine ⟨forall_mem_plainFirst (P := fun file => withDependency.readText? file =
      variants.readText? file) ?_ ?_ ?_ (.swap _ _ _),
    Tree.readText?_of_locate (by decide) (by decide) hslashes,
    Tree.readText?_eq_some_iff.2 ⟨_, hinfo, rfl⟩, Tree.readText?_eq_some_iff.2 ⟨_, hlist, rfl⟩⟩
  · rw [hplain]
    exact Tree.readText?_eq_some_iff.2 ⟨_, hplainAt, rfl⟩
  · rw [hland]
    exact Tree.readText?_eq_some_iff.2 ⟨_, hlandAt, rfl⟩
  · rw [hincluder]
    exact Tree.readText?_eq_some_iff.2 ⟨_, hincluderAt, rfl⟩

/-- What the layout that includes `a` declares as a resource. -/
def includerTable : SymbolTable :=
  (SymbolTable.empty.addIds ["i"]).insert (.scalar .layout "b")

theorem file_includer : Collect.file .standard withDependency ⟨"layout/b.xml"⟩ =
    .ok includerTable := by
  have hread : withDependency.readText? ⟨"layout/b.xml"⟩ = some includer :=
    (readText?_withDependency.1 _ (by decide)).trans readText?_variants.2.2
  have hids : ViewId.readAll? includer = some ["i"] := by decide +kernel
  have hname : Collect.resourceName ⟨"layout/b.xml"⟩ = "b" := by decide
  have hkind : ResourceKind.ofDirectoryName? (Collect.directoryOf ⟨"layout/b.xml"⟩) =
      some .layout := by decide
  rw [Collect.file_of_ids (by decide) (by decide) hread hids hkind, hname, includerTable]

theorem exists_table_onDependency : ∃ table, Collect.all .standard false withDependency
    [⟨"layout/b.xml"⟩] ["int string s 0"] = .ok table := by
  have htables : [⟨"layout/b.xml"⟩].mapM (Collect.located .standard withDependency) =
      .ok [(⟨"layout/b.xml"⟩, includerTable)] :=
    mapM_eq_ok_iff.2 (.cons (Collect.located_eq_ok_iff.2 ⟨rfl, file_includer⟩) .nil)
  have hsound : SymbolLine.IsSound "int string s 0" :=
    Or.inr ⟨.string, "s", _, _, _, _, rfl, by decide, rfl⟩
  exact ⟨_, bind_eq_ok_iff.2 ⟨_, htables,
    Collect.addLines_eq_ok_iff.2 ⟨List.forall_mem_singleton.2 hsound, rfl⟩⟩⟩

theorem readInputs_onDependency : ∃ table, onDependency.readInputs withDependency =
    .ok ⟨[variant ⟨"layout-land/a.xml"⟩, including], table⟩ := by
  obtain ⟨htext, -, hinfo, hlist⟩ := readText?_withDependency
  obtain ⟨own, hown, hget⟩ : ∃ own, TypeStore.ofFiles "p" withDependency markedFirst = .ok own ∧
      own.get? "a" = some (LayoutData.localClass "p" "a") := by
    obtain ⟨own, hown, -⟩ := ownKnows_variants (.swap _ _ _ : markedFirst.Perm plainFirst)
    have hown' : TypeStore.ofFiles "p" withDependency markedFirst = .ok _ :=
      TypeStore.ofFiles_eq_ok_iff.2 ⟨fun file hfile => by
        rw [htext file hfile]
        exact (TypeStore.ofFiles_eq_ok_iff.1 hown).1 file hfile, rfl⟩
    refine ⟨_, hown', ?_⟩
    rw [TypeStore.get?_ofFiles hown', if_pos]
    refine ⟨⟨"layout-land/a.xml"⟩, by decide, layoutOfFile_variants.2.1, ?_⟩
    rw [TypeStore.marks, htext _ (by decide)]
    exact marks_variants.2.1
  have hdependencies : TypeStore.ofClassInfos withDependency [⟨"layout/info.json"⟩] =
      .ok (TypeStore.empty.addMappings [("c", "q.CBinding")]) := by
    have hmappings : ClassInfo.read? published = some [("c", "q.CBinding")] := by decide +kernel
    rw [TypeStore.ofClassInfos, List.foldlM_cons]
    exact bind_eq_ok_iff.2
      ⟨_, TypeStore.addClassInfo_eq_ok_iff.2 ⟨_, _, hinfo, hmappings, rfl⟩, rfl⟩
  have hlayouts : ∀ types : LayoutTypes,
      types.get? "a" = some (LayoutData.localClass "p" "a") →
        Layout.readFiles "p" types withDependency markedFirst =
          .ok [variant ⟨"layout-land/a.xml"⟩, including] := by
    intro types htype
    have hread : ∀ file ∈ markedFirst, Layout.readFile "p" types withDependency file =
        Layout.readFile "p" types variants file := by
      intro file hfile
      rw [Layout.readFile, Layout.readFile, Tree.read, Tree.read, htext file hfile]
    obtain ⟨hplain, hland, hincluder⟩ := readFile_variants htype
    rw [← hread _ (by decide)] at hplain hland hincluder
    exact Layout.readFiles_eq_ok_iff.2
      ⟨_, mapM_eq_ok_iff.2 (.cons hland (.cons hplain (.cons hincluder .nil))), rfl⟩
  have hlines : dependencyLines withDependency [⟨"layout/R.txt"⟩] = .ok ["int string s 0"] := by
    have hlinesOf : linesOf "int string s 0" = ["int string s 0"] := by decide
    have htexts : [⟨"layout/R.txt"⟩].mapM withDependency.read = .ok ["int string s 0"] :=
      mapM_eq_ok_iff.2 (.cons (Tree.read_eq_ok_iff.2 hlist) .nil)
    rw [dependencyLines, htexts]
    exact congrArg (fun lines => Except.ok (lines ++ [])) hlinesOf
  obtain ⟨table, htable⟩ := exists_table_onDependency
  exact ⟨table, readInputs_eq_ok_iff.2 ⟨own, _, _, hown, hdependencies, hlayouts _ (by
    rw [LayoutTypes.get?, hget, Option.some_or]), hlines, htable⟩⟩

/-- A run with every list of its inputs once more, two files in another spelling. -/
theorem run_withMore_onDependency : ∃ s final,
    onDependency.run withDependency = (.ok s, final) ∧ s.stubs = 2 ∧
    (onDependency.withMore [⟨"layout//b.xml"⟩]
      [⟨"layout//b.xml"⟩, ⟨"layout/a.xml"⟩, ⟨"layout-land/a.xml"⟩, ⟨"layout/a.xml"⟩]
      [⟨"layout/info.json"⟩] [⟨"layout/R.txt"⟩, ⟨"layout/R.txt"⟩]).run withDependency =
        (.ok s, final) := by
  obtain ⟨table, hread⟩ := readInputs_onDependency
  obtain ⟨htext, hslashes, -, -⟩ := readText?_withDependency
  obtain ⟨hshape, -, -⟩ := sameShape_withDependency
  have hselect : Selection.all withDependency [variant ⟨"layout-land/a.xml"⟩, including] =
      .ok [variant ⟨"layout-land/a.xml"⟩, including] := by
    rw [← selection_congr hread fun file hfile => (htext file hfile).symm,
      all_variants ⟨_, readText?_variants.2.1⟩, isMarkedLayout_variants.2.1, if_pos rfl]
  have hprepared : onDependency.Prepared withDependency
      [variant ⟨"layout-land/a.xml"⟩, including] :=
    prepared_of_sameShape (c := onDependency) hshape rfl
      (fun d hd => exists_isOutput_className markedFirst (List.mem_pair.1 hd))
      (fileAt?_ne_of_mem_outputPlaces (.swap _ _ _))
  obtain ⟨middle, final, hs, hshape', -⟩ := exists_stages_of_prepared hread hselect hprepared
  have hrun := hs.run_eq (hprepared.apart.sameShape hshape')
  have hspelling : (⟨"layout/b.xml"⟩ : Path).same ⟨"layout//b.xml"⟩ = true ∧
      withDependency.readText? ⟨"layout/b.xml"⟩ = withDependency.readText? ⟨"layout//b.xml"⟩ := by
    rw [hslashes, htext _ (by decide), readText?_variants.2.2]
    exact ⟨by decide +kernel, rfl⟩
  have hresources : Repeats withDependency onDependency.resourceFiles [⟨"layout//b.xml"⟩] := by
    intro p hp
    obtain rfl := List.mem_singleton.1 hp
    exact ⟨_, List.mem_singleton_self _, hspelling⟩
  have hlayouts : Repeats withDependency onDependency.layoutFiles
      [⟨"layout//b.xml"⟩, ⟨"layout/a.xml"⟩, ⟨"layout-land/a.xml"⟩, ⟨"layout/a.xml"⟩] := by
    intro p hp
    rcases List.mem_cons.1 hp with rfl | hp
    · exact ⟨⟨"layout/b.xml"⟩, by decide, hspelling⟩
    · exact Repeats.of_subset (by decide) p hp
  have hinfos : Repeats withDependency onDependency.classInfos [⟨"layout/info.json"⟩] :=
    .of_subset (by decide)
  have hlists : Repeats withDependency onDependency.symbolLists
      [⟨"layout/R.txt"⟩, ⟨"layout/R.txt"⟩] := .of_subset (by decide)
  refine ⟨_, final, hrun, rfl, ?_⟩
  rw [run_withMore hresources hlayouts hinfos hlists, hrun]

end Command
end ResourceStubs
