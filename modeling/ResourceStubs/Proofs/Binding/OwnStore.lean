import ResourceStubs.Binding.TypeStore
import ResourceStubs.Proofs.List.ExceptSteps
import ResourceStubs.Proofs.Text.Cut

/-!
# The store of the module's own layouts

The store is made in one pass over the layout files.  It knows a layout when any of the
files of that layout has the marker, and the type is always the class that the layout has
in the module (`get?_ofFiles`).  So neither the order of the files nor their number says
anything about it.
-/

namespace ResourceStubs
namespace TypeStore

variable {package : String} {tree : Tree} {files : List Path} {own : TypeStore}

/-- Can the file be read, and does it have the marker? -/
def marks (tree : Tree) (file : Path) : Bool :=
  (tree.readText? file).any isMarked

/-- **A file is marked if the marker stands somewhere in its text.** -/
theorem marks_iff {file : Path} : marks tree file = true ↔
    ∃ text, tree.readText? file = some text ∧ marker.toList <:+: text.toList := by
  rw [marks, Option.any_eq_true]
  exact exists_congr fun text => and_congr_right fun _ => Text.occursIn_iff

/-- Is there a file of this layout with the marker? -/
def Registers (tree : Tree) (files : List Path) (layout : String) : Prop :=
  ∃ file ∈ files, LayoutData.layoutOfFile file = layout ∧ marks tree file = true

instance (tree : Tree) (files : List Path) (layout : String) :
    Decidable (Registers tree files layout) :=
  inferInstanceAs (Decidable (∃ file ∈ files, _))

/-- What a file adds. -/
def addMarked (package : String) (tree : Tree) (s : TypeStore) (file : Path) : TypeStore :=
  if marks tree file then
    s.insert (LayoutData.layoutOfFile file)
      (LayoutData.localClass package (LayoutData.layoutOfFile file))
  else s

theorem addFile_eq_ok_iff {s s' : TypeStore} {file : Path} :
    addFile package tree s file = .ok s' ↔
      (∃ text, tree.readText? file = some text) ∧ s' = addMarked package tree s file := by
  rw [addFile, bind_eq_ok_iff, addMarked, marks]
  constructor
  · rintro ⟨contents, hread, h⟩
    rw [Tree.read_eq_ok_iff] at hread
    rw [hread, Option.any_some]
    exact ⟨⟨contents, rfl⟩, (Except.ok.inj h).symm⟩
  · rintro ⟨⟨contents, hread⟩, rfl⟩
    rw [hread, Option.any_some]
    exact ⟨contents, Tree.read_eq_ok_iff.2 hread, rfl⟩

theorem ofFiles_eq_ok_iff :
    ofFiles package tree files = .ok own ↔
      (∀ file ∈ files, ∃ text, tree.readText? file = some text) ∧
        own = files.foldl (addMarked package tree) empty := by
  rw [ofFiles]
  exact foldlM_eq_ok_iff (f := addFile package tree) fun s file s' => addFile_eq_ok_iff

/-- When a layout is known, in terms of the texts of its files. -/
theorem registers_iff {layout : String} : Registers tree files layout ↔
    ∃ file ∈ files, LayoutData.layoutOfFile file = layout ∧
      ∃ text, tree.readText? file = some text ∧ marker.toList <:+: text.toList := by
  rw [Registers]
  simp only [marks_iff]

theorem registers_cons {file : Path} {layout : String} :
    Registers tree (file :: files) layout ↔
      LayoutData.layoutOfFile file = layout ∧ marks tree file = true ∨
        Registers tree files layout := by
  rw [Registers, Registers]
  constructor
  · rintro ⟨x, hx, h⟩
    rcases List.mem_cons.1 hx with rfl | hx
    · exact Or.inl h
    · exact Or.inr ⟨x, hx, h⟩
  · rintro (h | ⟨x, hx, h⟩)
    · exact ⟨file, List.mem_cons_self, h⟩
    · exact ⟨x, List.mem_cons_of_mem _ hx, h⟩

theorem get?_foldl_addMarked (s : TypeStore) (layout : String) :
    (files.foldl (addMarked package tree) s).get? layout =
      (s.get? layout).or (if Registers tree files layout then
        some (LayoutData.localClass package layout) else none) := by
  induction files generalizing s with
  | nil =>
      have hnone : ¬Registers tree [] layout := by
        rintro ⟨file, hfile, -⟩
        exact absurd hfile List.not_mem_nil
      rw [List.foldl_nil, if_neg hnone, Option.or_none]
  | cons file files ih =>
      rw [List.foldl_cons, ih, addMarked]
      by_cases hmarks : marks tree file = true
      · rw [if_pos hmarks, get?_insert, Option.or_assoc]
        refine congrArg _ ?_
        by_cases hname : layout = LayoutData.layoutOfFile file
        · rw [if_pos hname, Option.some_or, if_pos (registers_cons.2 (Or.inl ⟨hname.symm, hmarks⟩)),
            hname]
        · rw [if_neg hname, Option.none_or]
          refine if_congr ?_ rfl rfl
          rw [registers_cons]
          exact ⟨Or.inr, fun h => h.resolve_left fun hl => hname hl.1.symm⟩
      · rw [if_neg hmarks]
        refine congrArg _ (if_congr ?_ rfl rfl)
        rw [registers_cons]
        exact ⟨Or.inr, fun h => h.resolve_left fun hl => hmarks hl.2⟩

/-- **A layout is known if any of its files is marked.** -/
theorem get?_ofFiles (h : ofFiles package tree files = .ok own) (layout : String) :
    own.get? layout =
      if Registers tree files layout then some (LayoutData.localClass package layout)
      else none := by
  have hempty : empty.get? layout = none := rfl
  rw [(ofFiles_eq_ok_iff.1 h).2, get?_foldl_addMarked, hempty, Option.none_or]

/-- **Neither the order of the files nor their number matters to the store.** -/
theorem exists_ofFiles_of_same {files' : List Path} (hsame : ∀ file, file ∈ files' ↔ file ∈ files)
    (h : ofFiles package tree files = .ok own) :
    ∃ own', ofFiles package tree files' = .ok own' ∧ own'.get? = own.get? := by
  obtain ⟨hread, -⟩ := ofFiles_eq_ok_iff.1 h
  have h' := ofFiles_eq_ok_iff.2 (⟨fun file hfile => hread file ((hsame file).1 hfile), rfl⟩ :
    (∀ file ∈ files', ∃ text, tree.readText? file = some text) ∧
      files'.foldl (addMarked package tree) empty = files'.foldl (addMarked package tree) empty)
  refine ⟨_, h', funext fun layout => ?_⟩
  rw [get?_ofFiles h, get?_ofFiles h']
  exact if_congr (exists_congr fun file => and_congr_left fun _ => hsame file) rfl rfl

theorem exists_ofFiles_of_perm {files' : List Path} (hperm : files.Perm files')
    (h : ofFiles package tree files = .ok own) :
    ∃ own', ofFiles package tree files' = .ok own' ∧ own'.get? = own.get? :=
  exists_ofFiles_of_same (fun _ => hperm.mem_iff.symm) h

end TypeStore
end ResourceStubs
