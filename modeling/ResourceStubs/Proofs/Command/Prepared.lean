import ResourceStubs.Proofs.Command.Stages
import ResourceStubs.Proofs.File.WriteOrder

/-!
# Runs in a prepared tree

A tree is prepared for a run if the output directories are there and every output path can
be written.  In a prepared tree, a run whose inputs can be read succeeds
(`exists_stages_of_prepared`): writing is the only thing that could still fail, and no
write stands in the way of another.  Places that are not the place of an output path keep
what they have.
-/

namespace ResourceStubs
namespace Command

open Java

variable {c : Command} {tree : Tree} {inputs : Inputs} {selected : List LayoutData}

/-- Is the directory of the path there, and can the path be written? -/
def IsReady (tree : Tree) (path : Path) : Prop :=
  tree.Created (path.parent?.getD ⟨""⟩) ∧ ∃ place, tree.Writable path place

/-- The paths of the binding classes and of the interface that they share. -/
def bindingPaths (c : Command) (selected : List LayoutData) : List Path :=
  CompilationUnit.pathBelow Stub.component c.stubsOutput ::
    selected.map fun d => c.classPath d.className

/-- Can all outputs be written, and are the layout files apart from the first of them? -/
structure Prepared (c : Command) (tree : Tree) (selected : List LayoutData) : Prop where
  tables : ∀ path ∈ c.tablePaths, IsReady tree path
  bindings : ∀ path ∈ c.bindingPaths selected, IsReady tree path
  apart : c.LayoutsApart tree

theorem map_pathBelow_bindingClasses (c : Command) (selected : List LayoutData) :
    (c.bindingClasses selected).map (fun u => u.pathBelow c.stubsOutput) =
      c.bindingPaths selected := by
  have hrender : ∀ layouts : List LayoutData,
      (layouts.map (Stub.render c.package)).map (fun u => u.pathBelow c.stubsOutput) =
        layouts.map fun d => c.classPath d.className := by
    intro layouts
    induction layouts with
    | nil => rfl
    | cons d layouts ih => rw [List.map_cons, List.map_cons, List.map_cons, pathBelow_render, ih]
  rw [bindingClasses, bindingPaths, List.map_cons, hrender]

/-- If its paths are ready, a list of source files can be written. -/
theorem exists_writeAll_of_isReady {dir : Path} {us : List CompilationUnit}
    (h : ∀ path ∈ us.map (fun u => u.pathBelow dir), IsReady tree path) :
    ∃ t', CompilationUnit.writeAll dir us tree = (.ok (), t') ∧ tree.SameShape t' ∧
      ∀ place, (∀ path ∈ us.map (fun u => u.pathBelow dir), tree.fileAt? path ≠ some place) →
        t'.find? place = tree.find? place := by
  have hready : ∀ u ∈ us, IsReady tree (u.pathBelow dir) := fun u hu =>
    h _ (List.mem_map_of_mem hu)
  have hcreated : ∀ u ∈ us, tree.Created (u.directoryBelow dir) := fun u hu => (hready u hu).1
  obtain ⟨t', ht'⟩ := CompilationUnit.exists_writeAll hcreated fun u hu => (hready u hu).2
  refine ⟨t', ht', CompilationUnit.sameShape_of_writeAll hcreated ht', fun place hplace => ?_⟩
  rcases CompilationUnit.find?_of_writeAll hcreated ht' place with ⟨-, hfind⟩ | ⟨u, hu, hat, -⟩
  · exact hfind
  · exact absurd hat (hplace _ (List.mem_map_of_mem hu))

theorem IsReady.sameShape {t' : Tree} {path : Path} (hshape : tree.SameShape t')
    (h : IsReady tree path) : IsReady t' path := by
  obtain ⟨hcreated, place, hplace⟩ := h
  exact ⟨hshape.created _ hcreated, place, (hshape.writable _ _).2 hplace⟩

/-- A path with no file at it, in a directory that is there, is ready. -/
theorem isReady_of_liesIn {path : Path} {front : List String} {name : String}
    (h : tree.LiesIn path front name)
    (hparent : (path.parent?.getD ⟨""⟩).segments = front ∧
      (path.parent?.getD ⟨""⟩).isAbsolute = false)
    (hnone : tree.find? (tree.workingDirectory ++ front ++ [name]) = none)
    (hfits : Tree.nameFits name = true) : IsReady tree path := by
  refine ⟨?_, _, h.fileAt?_of_none hnone, fun _ => ?_⟩
  · rw [Tree.Created, Tree.startOf, hparent.1, hparent.2]
    exact h.directoriesAlong
  · rw [List.getLast?_concat, Option.any_some, hfits]

theorem LayoutsApart.sameShape {t' : Tree} (hshape : tree.SameShape t')
    (h : c.LayoutsApart tree) : c.LayoutsApart t' := by
  intro file hfile path hpath
  rw [hshape.fileAt?, hshape.fileAt?]
  exact h file hfile path hpath

/-- **In a prepared tree a run succeeds as soon as its inputs can be read.** -/
theorem exists_stages_of_prepared (hread : c.readInputs tree = .ok inputs)
    (hselect : Selection.all tree inputs.layouts = .ok selected) (h : c.Prepared tree selected) :
    ∃ middle final, c.Stages tree inputs middle selected final ∧ tree.SameShape final ∧
      ∀ place, (∀ path ∈ c.tablePaths ++ c.bindingPaths selected,
        tree.fileAt? path ≠ some place) → final.find? place = tree.find? place := by
  obtain ⟨own, _, _, hown, -⟩ := readInputs_eq_ok_iff.1 hread
  have htables : ∀ path ∈ (c.tableClasses inputs).map (fun u => u.pathBelow c.rClassOutput),
      IsReady tree path := h.tables
  obtain ⟨middle, hmiddle, hshape, hkeep⟩ := exists_writeAll_of_isReady htables
  have hbindings : ∀ path ∈ c.bindingPaths selected, IsReady middle path :=
    fun path hpath => (h.bindings path hpath).sameShape hshape
  have hinterface : ∀ path ∈ [Stub.component].map (fun u => u.pathBelow c.stubsOutput),
      IsReady middle path :=
    List.forall_mem_singleton.2 (hbindings _ List.mem_cons_self)
  obtain ⟨t, ht, hshape', -⟩ := exists_writeAll_of_isReady hinterface
  -- the layout files are still as they were when the interface has been written
  have htext : ∀ file ∈ c.layoutFiles, t.readText? file = tree.readText? file := by
    intro file hfile
    obtain ⟨text, htext⟩ := (TypeStore.ofFiles_eq_ok_iff.1 hown).1 file hfile
    rw [htext]
    refine CompilationUnit.readText?_of_writeAll ht
      (CompilationUnit.readText?_of_writeAll hmiddle htext fun u hu => ?_) fun u hu => ?_
    · rw [hshape.fileAt?, hshape.fileAt?]
      refine h.apart file hfile _ (List.mem_append_left _ ?_)
      rw [← map_pathBelow_tableClasses c inputs]
      exact List.mem_map_of_mem hu
    · obtain rfl := List.mem_singleton.1 hu
      rw [hshape'.fileAt?, hshape'.fileAt?, hshape.fileAt?, hshape.fileAt?]
      exact h.apart file hfile _ (List.mem_append_right _ (List.mem_singleton_self _))
  rw [← map_pathBelow_bindingClasses] at hbindings
  obtain ⟨final, hfinal, hshape'', hkeep'⟩ := exists_writeAll_of_isReady hbindings
  refine ⟨middle, final, ⟨hread, hmiddle, ?_, hfinal⟩, hshape.trans hshape'',
    fun place hplace => ?_⟩
  · rw [withInterface_of_writeAll ht, selection_congr hread htext, hselect]
  · rw [hkeep' place ?_, hkeep place ?_]
    · exact fun path hpath => hplace path (List.mem_append_left _ hpath)
    · intro path hpath
      rw [map_pathBelow_bindingClasses] at hpath
      rw [hshape.fileAt?]
      exact hplace path (List.mem_append_right _ hpath)

end Command
end ResourceStubs
