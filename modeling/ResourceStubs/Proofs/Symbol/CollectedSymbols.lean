import ResourceStubs.Proofs.File.SortedPaths
import ResourceStubs.Proofs.Symbol.ClassifiedFiles
import ResourceStubs.Proofs.Symbol.Inventory

/-!
# Nothing is lost and nothing is made up

The symbols of a collection are those that its files and its lines declare.  A file in a
directory whose name begins with `values` declares what its declarations declare.  Any other
file declares a symbol for itself, of the kind that the name of the directory has before its
first dash and with the stem of the file before its first `.9`; and if it is a document, it
declares the ids of its views (`keysOf`).  The members of a group are the direct children
that declarations give it, read over the files in the order of their paths and over the
declarations of a file in the order of the document.

The file is read twice here, by the collection and by `keysOf`; what the collection makes of
it accords with the inventory of the file (`accords_file`), and the merge of all files with
the inventories one after the other (`accords_merged`).
-/

namespace ResourceStubs
namespace Collect

open SymbolTable

/-- Is the file in a directory whose name begins with `values`? -/
def InValues (p : Path) : Prop :=
  "values".toList <+: (p.directoryName?.getD "").toList

instance : DecidablePred InValues := fun p =>
  inferInstanceAs (Decidable ("values".toList <+: (p.directoryName?.getD "").toList))

/-- The declarations of a values file, and none of any other file. -/
def declarationsOf (tree : Tree) (p : Path) : List Declaration :=
  if InValues p then ((tree.readText? p).bind Declaration.readAll?).getD [] else []

/-- The ids of the views in a document, and none of any other file. -/
def viewIdsOf (tree : Tree) (p : Path) : List String :=
  if p.extension? = some "xml" then ((tree.readText? p).bind ViewId.readAll?).getD [] else []

/-- The kind that is named by the directory of a file, before the first dash. -/
def kindOfFile? (p : Path) : Option ResourceKind :=
  ResourceKind.ofName? (String.ofList
    (Text.beforeFirst "-".toList (p.directoryName?.getD "").toList))

/-- The stem of a file before the first `.9`. -/
def stemBeforeNine (p : Path) : String :=
  String.ofList (Text.beforeFirst ".9".toList (p.fileStem?.getD "").toList)

/-- The keys of the symbols that a file declares. -/
def keysOf (tree : Tree) (p : Path) : List (ResourceKind × String) :=
  if InValues p then (declarationsOf tree p).flatMap Declaration.keys
  else (viewIdsOf tree p).map (.id, ·) ++ (kindOfFile? p).toList.map (·, stemBeforeNine p)

/-- All that a file declares. -/
def fileInventory (tree : Tree) (p : Path) : Inventory :=
  ⟨keysOf tree p, (declarationsOf tree p).flatMap Declaration.groupNames,
    fun group => (declarationsOf tree p).flatMap (Declaration.membersOf group)⟩

variable {tree : Tree} {p : Path} {t : SymbolTable}

/-! ## One file -/

theorem isValuesDirectory_iff (p : Path) :
    isValuesDirectory (directoryOf p) = true ↔ InValues p :=
  Text.isSome_afterStart?_iff

theorem accords_valuesFile (hdir : InValues p)
    (h : valuesFile .standard tree p = .ok t) : t.Accords (fileInventory tree p) := by
  obtain ⟨contents, declarations, hread, hall, h⟩ := valuesFile_eq_ok_iff.1 h
  have hdeclarations : declarationsOf tree p = declarations := by
    rw [declarationsOf, if_pos hdir, hread, Option.bind_some, hall, Option.getD_some]
  have haccords := accords_empty.addDeclarations h
  rw [Inventory.nothing_append] at haccords
  rwa [fileInventory, keysOf, if_pos hdir, hdeclarations]

theorem eq_viewIdsOf {ids : List String} (h : idsOf tree p = .ok ids) :
    ids = viewIdsOf tree p := by
  rw [viewIdsOf]
  rcases idsOf_eq_ok_iff.1 h with ⟨hx, contents, hread, hall⟩ | ⟨hx, rfl⟩
  · rw [if_pos hx, hread, Option.bind_some, hall, Option.getD_some]
  · rw [if_neg hx]

theorem accords_resourceFile (hdir : ¬InValues p)
    (h : resourceFile tree p = .ok t) : t.Accords (fileInventory tree p) := by
  obtain ⟨ids, kind, hids, hkind, rfl⟩ := resourceFile_eq_ok_iff.1 h
  have hkind : kindOfFile? p = some kind := hkind
  have hname : resourceName p = stemBeforeNine p := rfl
  have hinventory : fileInventory tree p =
      (Inventory.concat (.ofKey .id) ids).append (.ofKey kind (resourceName p)) := by
    have hnone : ∀ l : List String, l.flatMap (fun _ => ([] : List String)) = [] :=
      fun _ => List.flatMap_eq_nil_iff.2 fun _ _ => rfl
    rw [eq_viewIdsOf hids, fileInventory, keysOf, if_neg hdir, declarationsOf, if_neg hdir, hkind,
      ← hname]
    simp [Inventory.concat, Inventory.append, Inventory.ofKey, List.map_eq_flatMap, hnone]
  rw [hinventory, ← Inventory.nothing_append (.concat _ _)]
  exact (accords_empty.addIds ids).insert (.scalar kind (resourceName p))

/-- **A file adds what it declares.** -/
theorem accords_file (h : file .standard tree p = .ok t) : t.Accords (fileInventory tree p) := by
  rw [file] at h
  split at h
  · rename_i hdir
    exact accords_valuesFile ((isValuesDirectory_iff p).1 hdir) h
  · rename_i hdir
    exact accords_resourceFile (fun hvalues => hdir ((isValuesDirectory_iff p).2 hvalues)) h

/-! ## All files -/

theorem map_fst_of_located {registry : Registry} {files : List Path}
    {tables : List (Path × SymbolTable)}
    (h : files.mapM (located registry tree) = .ok tables) : tables.map Prod.fst = files := by
  rw [mapM_eq_ok_iff] at h
  induction h with
  | nil => rfl
  | cons hlocated _ ih => rw [List.map_cons, ih, (located_eq_ok_iff.1 hlocated).1]

/-- **All files add what they declare**, one after the other in the order of their
paths. -/
theorem accords_merged {files : List Path} {tables : List (Path × SymbolTable)}
    (h : files.mapM (located .standard tree) = .ok tables) :
    (merged tables).Accords
      (.concat (fileInventory tree) (files.mergeSort fun p q => p.le q)) := by
  have hsorted : (tables.mergeSort fun a b => a.1.le b.1).map Prod.fst =
      files.mergeSort fun p q => p.le q := by
    rw [← map_fst_of_located h]
    exact List.map_mergeSort fun _ _ _ _ => rfl
  rw [← hsorted, Inventory.concat_map, merged, ← Inventory.nothing_append (.concat _ _)]
  refine accords_empty.foldl fun x hx t i ht => ht.merge ?_
  obtain ⟨q, -, hq⟩ := (mem_of_mapM_eq_ok h).1 (List.mem_mergeSort.1 hx)
  obtain ⟨rfl, hfile⟩ := located_eq_ok_iff.1 hq
  exact accords_file hfile

/-- The keys that lines name. -/
theorem mem_concat_lines {lines : List String} {kind : ResourceKind} {name : String} :
    (kind, name) ∈ (Inventory.concat (fun e : SymbolEntry => .ofKey e.kind e.name)
        (lines.filterMap SymbolLine.symbol?)).keys ↔
      ∃ line ∈ lines, SymbolLine.Names line kind name := by
  simp only [Inventory.concat, Inventory.ofKey, List.mem_flatMap, List.mem_filterMap,
    List.mem_singleton, Prod.mk.injEq, SymbolLine.names_iff]
  constructor
  · rintro ⟨e, ⟨line, hline, he⟩, rfl, rfl⟩
    exact ⟨line, hline, e, he, rfl, rfl⟩
  · rintro ⟨line, hline, e, he, rfl, rfl⟩
    exact ⟨e, ⟨line, hline, he⟩, rfl, rfl⟩

/-- **The collection neither loses nor makes up a symbol.**  A kind and a name are in the
table exactly if a file declares them or, unless dependencies are kept out, a line names
them.  A group is in the table exactly if a declaration makes it one.  Its members are the
direct children that it is given, over the files in the order of their paths and in each
file over its declarations in order, each where it comes first. -/
theorem collects_exactly_declared {nonTransitive : Bool} {tree : Tree} {files : List Path}
    {lines : List String} {t : SymbolTable}
    (h : all .standard nonTransitive tree files lines = .ok t) :
    (∀ kind name, t.contains kind name = true ↔
      (∃ p ∈ files, (kind, name) ∈ keysOf tree p) ∨
        nonTransitive = false ∧ ∃ line ∈ lines, SymbolLine.Names line kind name) ∧
    (∀ group, (t.members? group).isSome ↔
      ∃ p ∈ files, ∃ d ∈ declarationsOf tree p, group ∈ d.groupNames) ∧
    ∀ group, (t.members? group).getD [] =
      Contribution.distinct ((files.mergeSort fun p q => p.le q).flatMap fun p =>
        (declarationsOf tree p).flatMap (Declaration.membersOf group)) := by
  obtain ⟨tables, htables, h⟩ := bind_eq_ok_iff.1 h
  have hown := (accords_merged htables).resize
  have hkeys : ∀ kind name, (kind, name) ∈ (Inventory.concat (fileInventory tree)
      (files.mergeSort fun p q => p.le q)).keys ↔ ∃ p ∈ files, (kind, name) ∈ keysOf tree p := by
    simp [Inventory.concat, fileInventory, List.mem_mergeSort]
  have hgroups : ∀ group, group ∈ (Inventory.concat (fileInventory tree)
      (files.mergeSort fun p q => p.le q)).groups ↔
        ∃ p ∈ files, ∃ d ∈ declarationsOf tree p, group ∈ d.groupNames := by
    simp [Inventory.concat, fileInventory, List.mem_mergeSort]
  split at h
  · rename_i hkept
    obtain rfl := Except.ok.inj h
    refine ⟨fun kind name => ?_, fun group => (hown.groups group).trans (hgroups group),
      hown.members⟩
    rw [contains, hown.symbols, hkeys]
    simp [hkept]
  · rename_i hkept
    obtain ⟨-, rfl⟩ := addLines_eq_ok_iff.1 h
    have hall := hown.foldl (l := lines.filterMap SymbolLine.symbol?)
      fun e _ _ _ ht => ht.insert e
    refine ⟨fun kind name => ?_, fun group => ?_, fun group => ?_⟩
    · rw [contains, hall.symbols, Inventory.append, List.mem_append, hkeys, mem_concat_lines]
      simp [hkept]
    · rw [members?_foldl_insert, hown.groups, hgroups]
    · rw [members?_foldl_insert, hown.members]
      rfl

/-! ## Files of all sorts -/

/-- A values file with an item, an item without a type, an unknown tag, and a group with a child
inside a child. -/
def mixedValues : String :=
  "<item type='dimen' name='d'/><item name='i'/>" ++
    "<widget name='w'/><bool name='b'/>" ++
    "<declare-styleable name='S'><attr name='x'>" ++
    "<flag name='f'/></attr></declare-styleable>"

/-- Its declarations. -/
def mixedDeclarations : List Declaration :=
  [.element "item" "d" (some "dimen"), .element "item" "i" none, .element "widget" "w" none,
    .element "bool" "b" none, .styleable "S" [⟨"attr", "x", false⟩, ⟨"flag", "f", true⟩]]

/-- A layout with an id. -/
def mixedLayout : String :=
  "<View android:id='@+id/title'/>"

/-- A tree with these files, one with more members of the group, and a nine-patch image. -/
def mixedFiles : Tree :=
  ⟨[(["res"], .directory), (["res", "drawable-hdpi"], .directory),
    (["res", "layout-land"], .directory), (["res", "values"], .directory),
    (["res", "values-v21"], .directory),
    (["res", "drawable-hdpi", "icon.9.png"], .file .binary),
    (["res", "layout-land", "main.xml"], .file (.text mixedLayout)),
    (["res", "values", "a.xml"], .file (.text mixedValues)),
    (["res", "values-v21", "a.xml"], .file (.text groupAgain))], []⟩

/-- The four files in the order of their paths. -/
def mixedPaths : List Path :=
  [⟨"res/drawable-hdpi/icon.9.png"⟩, ⟨"res/layout-land/main.xml"⟩, ⟨"res/values/a.xml"⟩,
    ⟨"res/values-v21/a.xml"⟩]

/-- What the four files and the line `int string s 1` declare, each key once. -/
def mixedKeys : List (ResourceKind × String) :=
  [(.attr, "x"), (.attr, "y"), (.bool, "b"), (.dimen, "d"), (.drawable, "icon"), (.id, "f"),
    (.id, "title"), (.layout, "main"), (.string, "s"), (.styleable, "S")]

theorem readAll?_mixedValues : Declaration.readAll? mixedValues = some mixedDeclarations := by
  have hevents : Markup.read mixedValues =
      [.standalone ⟨"item", ⟨[("type", "dimen"), ("name", "d")]⟩⟩,
        .standalone ⟨"item", ⟨[("name", "i")]⟩⟩, .standalone ⟨"widget", ⟨[("name", "w")]⟩⟩,
        .standalone ⟨"bool", ⟨[("name", "b")]⟩⟩, .opening groupTag, .opening (memberTag "x"),
        .standalone ⟨"flag", ⟨[("name", "f")]⟩⟩, .closing, .closing] := by decide +kernel
  have hchildren : Declaration.children? 0 [.opening (memberTag "x"),
      .standalone ⟨"flag", ⟨[("name", "f")]⟩⟩, .closing, .closing] =
        some ([⟨"attr", "x", false⟩, ⟨"flag", "f", true⟩], []) := by decide
  rw [Declaration.readAll?, hevents, Declaration.ofEvents?_standalone rfl,
    Declaration.ofEvents?_standalone rfl, Declaration.ofEvents?_standalone rfl,
    Declaration.ofEvents?_standalone rfl, Declaration.ofEvents?_group rfl rfl hchildren,
    Declaration.ofEvents?]
  rfl

theorem readAll?_mixedLayout : ViewId.readAll? mixedLayout = some ["title"] := by
  decide +kernel

theorem readText?_mixedFiles :
    mixedFiles.readText? ⟨"res/layout-land/main.xml"⟩ = some mixedLayout ∧
      mixedFiles.readText? ⟨"res/values/a.xml"⟩ = some mixedValues ∧
      mixedFiles.readText? ⟨"res/values-v21/a.xml"⟩ = some groupAgain := by
  have hlayout : mixedFiles.LiesIn ⟨"res/layout-land/main.xml"⟩ ["res", "layout-land"]
      "main.xml" := by decide
  have hplain : mixedFiles.LiesIn ⟨"res/values/a.xml"⟩ ["res", "values"] "a.xml" := by decide
  have hv21 : mixedFiles.LiesIn ⟨"res/values-v21/a.xml"⟩ ["res", "values-v21"] "a.xml" := by
    decide
  exact ⟨Tree.readText?_eq_some_iff.2 ⟨_, hlayout.fileAt?_of_file rfl, rfl⟩,
    Tree.readText?_eq_some_iff.2 ⟨_, hplain.fileAt?_of_file rfl, rfl⟩,
    Tree.readText?_eq_some_iff.2 ⟨_, hv21.fileAt?_of_file rfl, rfl⟩⟩

theorem exists_all_mixedFiles :
    ∃ t, all .standard false mixedFiles mixedPaths.reverse ["int string s 1", ""] = .ok t := by
  obtain ⟨hlayout, hplain, hv21⟩ := readText?_mixedFiles
  have hfiles : ∀ p ∈ mixedPaths, ReadsWhole mixedFiles p ∧
      (ResourceLocation.ofPath? p).isSome := by
    simp only [mixedPaths, List.forall_mem_cons]
    refine ⟨⟨fun h => absurd h (by decide), by decide⟩,
      ⟨fun _ => ⟨_, hlayout, (ViewId.isSome_readAll?_iff _).1 ?_⟩, by decide⟩,
      ⟨fun _ => ⟨_, hplain, (Declaration.isSome_readAll?_iff _).1 ?_⟩, by decide⟩,
      ⟨fun _ => ⟨_, hv21, (Declaration.isSome_readAll?_iff _).1 ?_⟩, by decide⟩, by simp⟩
    · rw [readAll?_mixedLayout, Option.isSome_some]
    · rw [readAll?_mixedValues, Option.isSome_some]
    · rw [readAll?_groupAgain, Option.isSome_some]
  have hlocated : ∀ p ∈ mixedPaths.reverse, ∃ x, located .standard mixedFiles p = .ok x := by
    intro p hp
    obtain ⟨hwhole, hresource⟩ := hfiles p (List.mem_reverse.1 hp)
    obtain ⟨t, ht⟩ := (exists_file_iff hwhole).2 hresource
    exact ⟨(p, t), located_eq_ok_iff.2 ⟨rfl, ht⟩⟩
  obtain ⟨tables, htables⟩ := exists_mapM_eq_ok hlocated
  refine ⟨_, bind_eq_ok_iff.2 ⟨tables, htables, addLines_eq_ok_iff.2 ⟨?_, rfl⟩⟩⟩
  have hwords : Text.words "int string s 1".toList =
      ["int".toList, "string".toList, "s".toList, "1".toList] := by decide
  exact List.forall_mem_cons.2 ⟨Or.inr ⟨.string, "s", _, _, _, _, hwords, by decide, rfl⟩,
    List.forall_mem_singleton.2 (Or.inl (by decide))⟩

theorem declarationsOf_mixedFiles :
    declarationsOf mixedFiles ⟨"res/values/a.xml"⟩ = mixedDeclarations ∧
    declarationsOf mixedFiles ⟨"res/values-v21/a.xml"⟩ =
      [.styleable "S" [⟨"attr", "y", false⟩, ⟨"attr", "x", false⟩]] ∧
    mixedPaths.flatMap (declarationsOf mixedFiles) =
      mixedDeclarations ++ [.styleable "S" [⟨"attr", "y", false⟩, ⟨"attr", "x", false⟩]] := by
  obtain ⟨-, hreadPlain, hreadV21⟩ := readText?_mixedFiles
  have hplain : declarationsOf mixedFiles ⟨"res/values/a.xml"⟩ = mixedDeclarations := by
    rw [declarationsOf, if_pos (by decide), hreadPlain, Option.bind_some, readAll?_mixedValues,
      Option.getD_some]
  have hv21 : declarationsOf mixedFiles ⟨"res/values-v21/a.xml"⟩ =
      [.styleable "S" [⟨"attr", "y", false⟩, ⟨"attr", "x", false⟩]] := by
    rw [declarationsOf, if_pos (by decide), hreadV21, Option.bind_some, readAll?_groupAgain,
      Option.getD_some]
  have hdrawable : declarationsOf mixedFiles ⟨"res/drawable-hdpi/icon.9.png"⟩ = [] :=
    if_neg (by decide)
  have hlayout : declarationsOf mixedFiles ⟨"res/layout-land/main.xml"⟩ = [] :=
    if_neg (by decide)
  refine ⟨hplain, hv21, ?_⟩
  rw [mixedPaths, List.flatMap_cons, List.flatMap_cons, List.flatMap_cons, List.flatMap_singleton,
    hdrawable, hlayout, hplain, hv21, List.nil_append, List.nil_append]

theorem keysOf_mixedFiles :
    mixedPaths.flatMap (keysOf mixedFiles) =
      [(.drawable, "icon"), (.id, "title"), (.layout, "main"), (.dimen, "d"), (.bool, "b"),
        (.attr, "x"), (.id, "f"), (.styleable, "S"), (.attr, "y"), (.attr, "x"),
        (.styleable, "S")] := by
  obtain ⟨hlayout, -, -⟩ := readText?_mixedFiles
  obtain ⟨hplain, hv21, -⟩ := declarationsOf_mixedFiles
  have hdrawableKeys : keysOf mixedFiles ⟨"res/drawable-hdpi/icon.9.png"⟩ =
      [(.drawable, "icon")] := by
    rw [keysOf, if_neg (by decide), viewIdsOf, if_neg (by decide)]
    decide
  have hlayoutKeys : keysOf mixedFiles ⟨"res/layout-land/main.xml"⟩ =
      [(.id, "title"), (.layout, "main")] := by
    rw [keysOf, if_neg (by decide), viewIdsOf, if_pos (by decide), hlayout, Option.bind_some,
      readAll?_mixedLayout]
    decide
  have hplainKeys : keysOf mixedFiles ⟨"res/values/a.xml"⟩ =
      [(.dimen, "d"), (.bool, "b"), (.attr, "x"), (.id, "f"), (.styleable, "S")] := by
    rw [keysOf, if_pos (by decide), hplain]
    decide
  have hv21Keys : keysOf mixedFiles ⟨"res/values-v21/a.xml"⟩ =
      [(.attr, "y"), (.attr, "x"), (.styleable, "S")] := by
    rw [keysOf, if_pos (by decide), hv21]
    decide
  simp only [mixedPaths, List.flatMap_cons, List.flatMap_nil, hdrawableKeys, hlayoutKeys,
    hplainKeys, hv21Keys, List.cons_append, List.nil_append]

/-- The sort puts the files back into the order of their paths. -/
theorem sort_mixedPaths : (mixedPaths.reverse.mergeSort fun p q => p.le q) = mixedPaths := by
  refine List.Perm.eq_of_pairwise (fun p q hp hq hpq hqp => ?_)
    (Path.pairwise_sort mixedPaths.reverse) (by decide +kernel)
    ((List.mergeSort_perm _ _).trans (List.reverse_perm _))
  have hantisymm : ∀ p ∈ mixedPaths, ∀ q ∈ mixedPaths,
      p.le q = true → q.le p = true → p = q := by decide +kernel
  exact hantisymm p (List.mem_reverse.1 (List.mem_mergeSort.1 hp)) q hq hpq hqp

/-- The symbols of files of all sorts, which are given in the reverse order of their paths, and
of one line of a dependency.  The members of the group are in the order of the paths. -/
theorem collects_exactly_declared_mixedFiles :
    ∃ t, all .standard false mixedFiles mixedPaths.reverse ["int string s 1", ""] = .ok t ∧
      (∀ kind name, t.contains kind name = true ↔ (kind, name) ∈ mixedKeys) ∧
      (∀ group, (t.members? group).isSome ↔ group = "S") ∧
      (t.members? "S").getD [] = ["x", "y"] := by
  obtain ⟨t, hall⟩ := exists_all_mixedFiles
  have hentry : SymbolLine.symbol? "int string s 1" = some (.scalar .string "s") := by
    decide +kernel
  have hblank : SymbolLine.symbol? "" = none := by decide +kernel
  obtain ⟨-, -, hdeclarations⟩ := declarationsOf_mixedFiles
  obtain ⟨hkeys, hgroups, hmembers⟩ := collects_exactly_declared hall
  refine ⟨t, hall, fun kind name => (hkeys kind name).trans ?_,
    fun group => (hgroups group).trans ?_, (hmembers "S").trans ?_⟩
  · have hlines : (∃ line ∈ ["int string s 1", ""], SymbolLine.Names line kind name) ↔
        (kind, name) ∈ [(ResourceKind.string, "s")] := by
      simp [SymbolLine.names_iff, hentry, hblank, SymbolEntry.scalar, eq_comm]
    have hto : mixedPaths.flatMap (keysOf mixedFiles) ++ [(.string, "s")] ⊆ mixedKeys := by
      rw [keysOf_mixedFiles]
      decide
    have hfrom : mixedKeys ⊆ mixedPaths.flatMap (keysOf mixedFiles) ++ [(.string, "s")] := by
      rw [keysOf_mixedFiles]
      decide
    simp only [List.mem_reverse, true_and]
    rw [hlines, ← List.mem_flatMap, ← List.mem_append]
    exact ⟨@hto _, @hfrom _⟩
  · have hnames : (mixedPaths.flatMap (declarationsOf mixedFiles)).flatMap
        Declaration.groupNames = ["S", "S"] := by
      rw [hdeclarations]
      decide
    rw [List.flatMap_assoc] at hnames
    simp only [List.mem_reverse, ← List.mem_flatMap, hnames]
    simp
  · rw [sort_mixedPaths, ← List.flatMap_assoc, hdeclarations]
    decide

end Collect
end ResourceStubs
