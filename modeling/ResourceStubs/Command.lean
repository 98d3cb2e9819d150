import ResourceStubs.Binding.BrClass
import ResourceStubs.Binding.Layout
import ResourceStubs.Binding.Selection
import ResourceStubs.Binding.Stub
import ResourceStubs.Symbol.Collect
import ResourceStubs.Symbol.RClass

/-!
# A run

A run reads everything it needs, and only then begins to write: the stores of
layout types, the layouts, the lines of dependencies, and the symbols.  Then it
writes `R` and `BR`, looks which layouts get a class, and counts them.  It writes
the component interface, looks again, and writes the binding classes.  It stops
at the first failure and leaves the files as they are at that point.
-/

namespace ResourceStubs

/-- The inputs of a run. -/
structure Command where
  package : String
  resourceFiles : List Path
  layoutFiles : List Path
  classInfos : List Path
  symbolLists : List Path
  nonTransitive : Bool
  rClassOutput : Path
  stubsOutput : Path
  deriving DecidableEq, Repr

/-- What a run has made. -/
structure Summary where
  symbols : Nat
  layouts : Nat
  bindables : Nat
  stubs : Nat
  deriving DecidableEq, Repr

/-- Is the path taken for one below a directory of layouts?  Its text decides. -/
def Path.isBelowLayout (p : Path) : Bool :=
  Text.occursIn "/layout".toList p.text.toList || Text.occursIn "\\layout".toList p.text.toList

/-- The layouts among resource files. -/
def partitionLayouts (files : List Path) : List Path :=
  files.filter Path.isBelowLayout

namespace Command

/-- The lines of a symbol list that are not blank. -/
def linesOf (contents : String) : List String :=
  ((Text.lines contents.toList).filter fun line => !Text.isBlankText line).map String.ofList

/-- The lines of all symbol lists, in order. -/
def dependencyLines (tree : Tree) (files : List Path) : Except Failure (List String) := do
  let contents ← files.mapM tree.read
  return contents.flatMap linesOf

/-- What a run has read. -/
structure Inputs where
  layouts : List LayoutData
  table : SymbolTable

/-- Reads the inputs of a run. -/
def readInputs (c : Command) (tree : Tree) : Except Failure Inputs := do
  let own ← TypeStore.ofFiles c.package tree c.layoutFiles
  let dependencies ← TypeStore.ofClassInfos tree c.classInfos
  let layouts ← Layout.readFiles c.package ⟨own, dependencies⟩ tree c.layoutFiles
  let lines ← dependencyLines tree c.symbolLists
  let table ← Collect.all .standard c.nonTransitive tree c.resourceFiles lines
  return ⟨layouts, table⟩

/-- The classes that do not depend on which layouts get a binding class. -/
def tableClasses (c : Command) (inputs : Inputs) : List Java.CompilationUnit :=
  [RClass.render c.package inputs.table, BrClass.render c.package inputs.layouts]

/-- What a run says at its end, where `counted` are the layouts that were seen to get
a class. -/
def summary (inputs : Inputs) (counted : List LayoutData) : Summary :=
  ⟨inputs.table.size, inputs.layouts.length,
    (inputs.layouts.flatMap LayoutData.bindables).length, counted.length⟩

/-- Writes the interface that binding classes share, and then the binding classes.
Which layouts get one is looked up when the interface is there. -/
def writeBindings (c : Command) (layouts : List LayoutData) (tree : Tree) :
    Except Failure Unit × Tree :=
  match Stub.component.write c.stubsOutput tree with
  | (.error e, tree) => (.error e, tree)
  | (.ok (), tree) =>
      match Selection.all tree layouts with
      | .error e => (.error e, tree)
      | .ok selected =>
          Java.CompilationUnit.writeAll c.stubsOutput (selected.map (Stub.render c.package)) tree

/-- Writes what has been read, and says what was made. -/
def writeOutputs (c : Command) (inputs : Inputs) (tree : Tree) : Except Failure Summary × Tree :=
  match Java.CompilationUnit.writeAll c.rClassOutput (c.tableClasses inputs) tree with
  | (.error e, tree) => (.error e, tree)
  | (.ok (), tree) =>
      match Selection.all tree inputs.layouts with
      | .error e => (.error e, tree)
      | .ok counted =>
          match c.writeBindings inputs.layouts tree with
          | (.error e, tree) => (.error e, tree)
          | (.ok (), tree) => (.ok (summary inputs counted), tree)

/-- Runs a command on a file tree. -/
def run (c : Command) (tree : Tree) : Except Failure Summary × Tree :=
  match c.readInputs tree with
  | .error e => (.error e, tree)
  | .ok inputs => c.writeOutputs inputs tree

end Command
end ResourceStubs
