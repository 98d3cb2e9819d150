import ResourceStubs.Binding.TypeStore

/-!
# Which layouts get a class

A layout gets a binding class if its file has the marker of data binding.  So that
no class refers to one that is not there, every layout that is included somewhere
and missing gets an empty class, unless a marked layout has its name.
-/

namespace ResourceStubs
namespace Selection

/-- Is a layout of this name among the selected? -/
def isSelected (selected : List LayoutData) (layout : String) : Bool :=
  selected.any fun d => d.layout == layout

/-- Selects a layout, unless one of its name is selected. -/
def select (selected : List LayoutData) (d : LayoutData) : List LayoutData :=
  if isSelected selected d.layout then selected else selected ++ [d]

/-- Selects a layout if its file is marked. -/
def selectMarked (tree : Tree) (selected : List LayoutData) (d : LayoutData) :
    Except Failure (List LayoutData) :=
  match d.file with
  | none => .ok selected
  | some file => do
      let contents ← tree.read file
      return if TypeStore.isMarked contents then select selected d else selected

/-- The layouts that get a class: the marked ones, and an empty one for each that
is missing. -/
def all (tree : Tree) (layouts : List LayoutData) : Except Failure (List LayoutData) := do
  let marked ← layouts.foldlM (selectMarked tree) []
  return (layouts.flatMap LayoutData.missingLayouts).foldl
    (fun selected layout => select selected (.empty layout)) marked

end Selection
end ResourceStubs
