import ResourceStubs.Proofs.Command.FailedRun
import ResourceStubs.Proofs.Discovery.SortedFiles
import ResourceStubs.Proofs.Symbol.ClassifiedFiles
import ResourceStubs.Proofs.Symbol.DependencyLines

/-!
# Runs over discovered files

A file is discovered only if its directory says what it is, and then the collection of symbols
knows its kind.  No other input of a run is asked for a kind, but for the lines of dependencies.
So a run over discovered files that fails for an unknown kind has met it in a line
(`exists_fault_of_run`), and never in the name of a directory.
-/

namespace ResourceStubs

/-- Is the failure any other than that of an unknown kind? -/
def Failure.KnowsKind : Failure → Prop
  | .unknownKind _ => False
  | _ => True

open Failure

theorem failsOnly_read (tree : Tree) (p : Path) : FailsOnly KnowsKind (tree.read p) := by
  rw [Tree.read]
  split
  · exact failsOnly_ok _
  · exact failsOnly_error trivial

/-! ## The other inputs -/

theorem TypeStore.failsOnly_ofFiles (package : String) (tree : Tree) (files : List Path) :
    FailsOnly KnowsKind (ofFiles package tree files) :=
  failsOnly_foldlM (fun _ file _ => (failsOnly_read tree file).bind fun _ _ => failsOnly_ok _) _

theorem TypeStore.failsOnly_ofClassInfos (tree : Tree) (files : List Path) :
    FailsOnly KnowsKind (ofClassInfos tree files) := by
  refine failsOnly_foldlM (fun s file _ => (failsOnly_read tree file).bind fun contents _ => ?_) _
  split
  · exact failsOnly_error trivial
  · exact failsOnly_ok _

namespace Layout

variable (package : String) (types : LayoutTypes) (file : Path)

theorem failsOnly_required (tag : Markup.Tag) (attributeName : String) :
    FailsOnly KnowsKind (required file tag attributeName) := by
  rw [required]
  split
  · exact failsOnly_ok _
  · exact failsOnly_error trivial

theorem failsOnly_resolveIn (tag : Markup.Tag) (aliases : Aliases) (expression : String) :
    FailsOnly KnowsKind (resolveIn file tag aliases expression) := by
  rw [resolveIn]
  split
  · exact failsOnly_ok _
  · exact failsOnly_error trivial

theorem failsOnly_bindingOf (tag : Markup.Tag) (rawName : String) :
    FailsOnly KnowsKind (bindingOf package types file tag rawName) := by
  rw [bindingOf]
  split
  · exact (failsOnly_required file tag _).bind fun _ _ => failsOnly_ok _
  · exact failsOnly_ok _

theorem failsOnly_readTag (s : LayoutState) (tag : Markup.Tag) :
    FailsOnly KnowsKind (readTag package types file s tag) := by
  rw [readTag]
  split
  · exact (failsOnly_required file tag _).bind fun _ _ =>
      (failsOnly_resolveIn file tag _ _).bind fun _ _ => failsOnly_ok _
  · split
    · exact (failsOnly_required file tag _).bind fun _ _ =>
        (failsOnly_required file tag _).bind fun _ _ =>
          (failsOnly_resolveIn file tag _ _).bind fun _ _ => failsOnly_ok _
    · split
      · exact failsOnly_ok _
      · exact (failsOnly_bindingOf package types file tag _).bind fun _ _ => failsOnly_ok _

theorem failsOnly_readFile (tree : Tree) :
    FailsOnly KnowsKind (readFile package types tree file) := by
  refine (failsOnly_read tree file).bind fun contents _ => ?_
  refine (failsOnly_foldlM (fun s tag _ => failsOnly_readTag package types file s tag) _).bind
    fun s _ => ?_
  split
  · exact failsOnly_ok _
  · exact failsOnly_error trivial

theorem failsOnly_readFiles (tree : Tree) (files : List Path) :
    FailsOnly KnowsKind (readFiles package types tree files) :=
  (failsOnly_mapM fun file _ => failsOnly_readFile package types file tree).bind fun _ _ =>
    failsOnly_ok _

end Layout

/-! ## The files of resources -/

namespace Collect

open ResourceLocation

/-- Whatever else is wrong with a resource, its kind is known. -/
theorem failsOnly_file {tree : Tree} {p : Path} (hp : (ofPath? p).isSome) :
    FailsOnly KnowsKind (file .standard tree p) := by
  rw [file]
  split
  · refine (failsOnly_read tree p).bind fun contents _ => ?_
    split
    · exact failsOnly_error trivial
    · rw [SymbolTable.addDeclarations_standard]
      exact failsOnly_ok _
  · rename_i hvalues
    obtain ⟨kind, hkind⟩ : ∃ kind, ResourceKind.ofDirectoryName? (directoryOf p) = some kind := by
      have hmap := congrArg Option.isSome (ofPath?_of_not_isValuesDirectory hvalues)
      rw [Option.isSome_map, Option.isSome_map, hp] at hmap
      exact Option.isSome_iff_exists.1 hmap.symm
    refine FailsOnly.bind ?_ fun ids _ => ?_
    · rw [idsOf]
      split
      · refine (failsOnly_read tree p).bind fun contents _ => ?_
        split
        · exact failsOnly_error trivial
        · exact failsOnly_ok _
      · exact failsOnly_ok _
    · rw [kindOfDirectory_eq_ok_iff.2 hkind]
      exact failsOnly_ok _

/-- Among resources, only a line names an unknown kind. -/
theorem exists_fault_of_all {tree : Tree} {nonTransitive : Bool} {files : List Path}
    {lines : List String} {name : String} (hfiles : ∀ p ∈ files, (ofPath? p).isSome)
    (h : all .standard nonTransitive tree files lines = .error (.unknownKind name)) :
    nonTransitive = false ∧ ∃ line ∈ lines, SymbolLine.Fault line (.unknownKind name) := by
  rcases bind_eq_error_iff.1 h with h | ⟨tables, -, h⟩
  · have hlocated : FailsOnly KnowsKind (files.mapM (located .standard tree)) :=
      failsOnly_mapM fun p hp => (failsOnly_file (hfiles p hp)).bind fun _ _ => failsOnly_ok _
    exact (hlocated _ h).elim
  · cases nonTransitive with
    | true => cases h
    | false =>
        obtain ⟨before, line, after, rfl, -, hfault⟩ := addLines_eq_error_iff.1 h
        exact ⟨rfl, line, by simp, hfault⟩

end Collect

/-! ## Runs -/

namespace Command

open ResourceLocation Collect

variable {c : Command} {tree final : Tree} {name : String}

/-- **A run over resources meets an unknown kind in a line of dependencies only.** -/
theorem exists_fault_of_run (hfiles : ∀ p ∈ c.resourceFiles, (ofPath? p).isSome)
    (h : c.run tree = (.error (.unknownKind name), final)) :
    c.nonTransitive = false ∧ ∃ file ∈ c.symbolLists, ∃ contents,
      tree.readText? file = some contents ∧
        ∃ line ∈ linesOf contents, SymbolLine.Fault line (.unknownKind name) := by
  rcases readInputs_eq_error_or_unwritable h with ⟨hread, -⟩ | ⟨path, hpath⟩
  · rcases bind_eq_error_iff.1 hread with hread | ⟨own, -, hread⟩
    · exact (TypeStore.failsOnly_ofFiles _ _ _ _ hread).elim
    rcases bind_eq_error_iff.1 hread with hread | ⟨dependencies, -, hread⟩
    · exact (TypeStore.failsOnly_ofClassInfos _ _ _ hread).elim
    rcases bind_eq_error_iff.1 hread with hread | ⟨layouts, -, hread⟩
    · exact (Layout.failsOnly_readFiles _ _ _ _ _ hread).elim
    rcases bind_eq_error_iff.1 hread with hread | ⟨lines, hlines, hread⟩
    · have hlists : FailsOnly KnowsKind (dependencyLines tree c.symbolLists) :=
        (failsOnly_mapM fun file _ => failsOnly_read tree file).bind fun _ _ => failsOnly_ok _
      exact (hlists _ hread).elim
    rcases bind_eq_error_iff.1 hread with hread | ⟨table, -, hread⟩
    · obtain ⟨htransitive, line, hline, hfault⟩ := exists_fault_of_all hfiles hread
      obtain ⟨contents, hcontents, hall⟩ := bind_eq_ok_iff.1 hlines
      rw [← Except.ok.inj hall, List.mem_flatMap] at hline
      obtain ⟨text, htext, hline⟩ := hline
      obtain ⟨file, hfile, hread⟩ := (mem_of_mapM_eq_ok hcontents).1 htext
      exact ⟨htransitive, file, hfile, text, Tree.read_eq_ok_iff.1 hread, line, hline, hfault⟩
    · cases hread
  · exact absurd hpath (by simp)

/-- **Discovery admits what the collection can classify.**

Where the documents that are looked into are whole, a file is refused as one of an unknown kind
exactly if its directory does not say what it is, and it is collected in every other case: from
its declarations if it is one of values, and otherwise under its name and its kind.  So what
discovery admits, if no pattern excludes it, is what can be collected.

Whole or not, a run over discovered files alone never meets an unknown directory.  If it fails for
an unknown kind, a line of a list of symbols has it. -/
theorem classified_of_discovered (tree : Tree) :
    (∀ p, ReadsWhole tree p →
      ((∃ name, Collect.file .standard tree p = .error (.unknownKind name)) ↔ ofPath? p = none) ∧
      (ofPath? p = some .values → ∃ contents declarations t, tree.readText? p = some contents ∧
        Declaration.readAll? contents = some declarations ∧
        SymbolTable.empty.addDeclarations .standard declarations = .ok t ∧
        Collect.file .standard tree p = .ok t) ∧
      (∀ location kind, ofPath? p = some location → location.kind? = some kind →
        ∃ t, Collect.file .standard tree p = .ok t ∧
          t.get? kind (resourceName p) = some (.scalar kind (resourceName p))) ∧
      ∀ s, Discovery.admits s p = true ↔
        s.excludes p = false ∧ ∃ t, Collect.file .standard tree p = .ok t) ∧
    ∀ (walk : Path → List Path) (s : Settings) (dirs : List Path) (c : Command) (final : Tree)
      (name : String), (∀ p ∈ c.resourceFiles, p ∈ Discovery.resourcesBy walk s dirs) →
      c.run tree = (.error (.unknownKind name), final) →
      c.nonTransitive = false ∧ ∃ file ∈ c.symbolLists, ∃ contents,
        tree.readText? file = some contents ∧
          ∃ line ∈ linesOf contents, SymbolLine.Fault line (.unknownKind name) := by
  refine ⟨fun p hp => ⟨⟨?_, fun hnone => ⟨_, file_of_none hp hnone⟩⟩, file_of_values hp,
    fun _ _ => file_of_kind hp, fun s => ?_⟩, fun walk s dirs c final name hfiles hrun => ?_⟩
  · rintro ⟨name, hname⟩
    rw [← Option.not_isSome_iff_eq_none]
    exact fun hsome => failsOnly_file hsome _ hname
  · rw [Discovery.admits, Bool.and_eq_true, Bool.not_eq_true']
    refine and_congr_right fun _ => ?_
    rw [← exists_file_iff hp]
  · refine exists_fault_of_run (fun p hp => ?_) hrun
    have hadmits := Discovery.admits_of_mem_resourcesBy (hfiles p hp)
    rw [Discovery.admits, Bool.and_eq_true] at hadmits
    exact hadmits.2

/-- A tree with a file of values, and a list of symbols with a kind that there is not. -/
def unknownInLine : Tree :=
  ⟨[(["res"], .directory), (["res", "values"], .directory),
    (["res", "values", "a.xml"], .file (.text groupAgain)),
    (["R.txt"], .file (.text "int shape s 0"))], []⟩

/-- A drawable, which is not looked into. -/
def icon : Path :=
  ⟨"res/drawable-hdpi/icon.9.png"⟩

/-- A run over the drawable, with the list of symbols. -/
def overIcon : Command :=
  { package := "p", resourceFiles := [icon], layoutFiles := [], classInfos := [],
    symbolLists := [⟨"R.txt"⟩], nonTransitive := false, rClassOutput := ⟨"r"⟩,
    stubsOutput := ⟨"stubs"⟩ }

theorem readText?_unknownInLine :
    unknownInLine.readText? ⟨"res/values/a.xml"⟩ = some groupAgain ∧
      unknownInLine.readText? ⟨"R.txt"⟩ = some "int shape s 0" := by
  have hvalues : unknownInLine.LiesIn ⟨"res/values/a.xml"⟩ ["res", "values"] "a.xml" := by decide
  have hlist : unknownInLine.LiesIn ⟨"R.txt"⟩ [] "R.txt" := by decide
  exact ⟨Tree.readText?_eq_some_iff.2 ⟨_, hvalues.fileAt?_of_file rfl, rfl⟩,
    Tree.readText?_eq_some_iff.2 ⟨_, hlist.fileAt?_of_file rfl, rfl⟩⟩

theorem readsWhole_icon : ReadsWhole unknownInLine icon :=
  fun h => absurd h (by decide)

theorem run_overIcon :
    overIcon.run unknownInLine = (.error (.unknownKind "shape"), unknownInLine) := by
  have hlines : dependencyLines unknownInLine overIcon.symbolLists = .ok ["int shape s 0"] := by
    refine bind_eq_ok_iff.2 ⟨["int shape s 0"], mapM_eq_ok_iff.2 (.cons ?_ .nil), by decide⟩
    exact Tree.read_eq_ok_iff.2 readText?_unknownInLine.2
  have htable : Collect.all .standard false unknownInLine [icon] ["int shape s 0"] =
      .error (.unknownKind "shape") := by
    have hkind : ofPath? icon = some (.resource .drawable) := by decide
    obtain ⟨t, ht, -⟩ := file_of_kind readsWhole_icon hkind rfl
    refine bind_eq_error_iff.2 (Or.inr ⟨[(icon, t)], ?_, ?_⟩)
    · exact mapM_eq_ok_iff.2 (.cons (located_eq_ok_iff.2 ⟨rfl, ht⟩) .nil)
    · have hwords : Text.words "int shape s 0".toList =
          ["int".toList, "shape".toList, "s".toList, "0".toList] := by decide
      exact addLines_eq_error_iff.2
        ⟨[], _, [], rfl, by simp, .unknownKind hwords (by decide)⟩
  have hread : overIcon.readInputs unknownInLine = .error (.unknownKind "shape") := by
    show (dependencyLines unknownInLine overIcon.symbolLists >>= _) = _
    rw [hlines]
    show (Collect.all .standard false unknownInLine [icon] ["int shape s 0"] >>=
      fun table => .ok ⟨[], table⟩) = _
    rw [htable]
    rfl
  rw [run, hread]

/-- A file of values, a drawable and a file in no directory of resources, and a run that meets
an unknown kind in a line. -/
theorem classified_of_discovered_unknownInLine :
    (∃ t, Collect.file .standard unknownInLine ⟨"res/values/a.xml"⟩ = .ok t) ∧
      (∃ t, Collect.file .standard unknownInLine icon = .ok t ∧
        t.get? .drawable "icon" = some (.scalar .drawable "icon")) ∧
      (∃ name, Collect.file .standard unknownInLine ⟨"notes/todo.txt"⟩ =
        .error (.unknownKind name)) ∧
      ∃ line ∈ linesOf "int shape s 0", SymbolLine.Fault line (.unknownKind "shape") := by
  obtain ⟨hvalues, hlist⟩ := readText?_unknownInLine
  obtain ⟨hfiles, hruns⟩ := classified_of_discovered unknownInLine
  have hwhole : ReadsWhole unknownInLine ⟨"res/values/a.xml"⟩ :=
    fun _ => ⟨_, hvalues, by decide +kernel⟩
  have hnotes : ReadsWhole unknownInLine ⟨"notes/todo.txt"⟩ := fun h => absurd h (by decide)
  refine ⟨?_, (hfiles _ readsWhole_icon).2.2.1 (.resource .drawable) .drawable (by decide) rfl,
    (hfiles _ hnotes).1.2 (by decide), ?_⟩
  · obtain ⟨-, -, t, -, -, -, ht⟩ := (hfiles _ hwhole).2.1 (by decide)
    exact ⟨t, ht⟩
  · have hfound : ∀ p ∈ overIcon.resourceFiles,
        p ∈ Discovery.resourcesBy (fun _ => [icon]) { exclude := [] } [⟨"res"⟩] := by
      intro p hp
      obtain rfl := List.mem_singleton.1 hp
      show icon ∈ Discovery.collect { exclude := [] } [icon]
      rw [Discovery.collect, List.filter_cons_of_pos (by decide), List.filter_nil, Path.sort,
        List.mergeSort_singleton, Path.dropRepeats]
      exact List.mem_singleton_self icon
    obtain ⟨-, file, hfile, contents, hcontents, hfault⟩ :=
      hruns (fun _ => [icon]) { exclude := [] } [⟨"res"⟩] overIcon _ _ hfound run_overIcon
    obtain rfl := List.mem_singleton.1 hfile
    obtain rfl := Option.some.inj (hlist.symm.trans hcontents)
    exact hfault

end Command
end ResourceStubs
