import ResourceStubs.File.Access
import ResourceStubs.Resource.Declaration
import ResourceStubs.Resource.ViewId
import ResourceStubs.Symbol.Table

/-!
# Collecting symbols

A resource file adds to the symbols what its directory says.  In a directory whose
name begins with `values`, it adds its declarations.  In any other, it adds one
symbol for itself, of the kind of the directory and with the name of the file; and
if it is a document, it adds the ids of the views in it before that.

The files are collected one by one and merged in the order of their paths, not in
the order in which they are given, because the members of a group are kept in the
order in which they are met.  Then the arrays are brought up to date, and only
after that do the symbols of dependencies come in.  They add what is not there,
and change nothing.
-/

namespace ResourceStubs

/-- The readings that one child of a group leads to. -/
def StyleableChild.entry (c : StyleableChild) : EntryShape × DeclaredEntry :=
  if c.nested then
    let tag := (ValueTag.ofName? c.tag).getD .attr
    (tag.shape, .single c.name (tag.kind?.getD .attr))
  else (.plain, .single c.name .attr)

/-- The names of the direct children. -/
def directNames (children : List StyleableChild) : List String :=
  (children.filter fun c => !c.nested).map StyleableChild.name

/-- The readings that a declaration leads to, each with its shape.  A group comes
after its children. -/
def Declaration.entries : Declaration → List (EntryShape × DeclaredEntry)
  | .element tag name type =>
      match (ValueTag.ofName? tag).map (·.retyped type) with
      | none => []
      | some tag => tag.kind?.toList.map fun kind => (tag.shape, .single name kind)
  | .styleable name children =>
      children.map StyleableChild.entry ++ [(.styleable, .group name (directNames children))]

namespace SymbolTable

/-- Adds what one reading contributes. -/
def addEntry (registry : Registry) (t : SymbolTable) (e : EntryShape × DeclaredEntry) :
    Except Failure SymbolTable := do
  return t.contribute (← registry.read e.1 e.2)

/-- Adds what declarations contribute. -/
def addDeclarations (registry : Registry) (t : SymbolTable) (declarations : List Declaration) :
    Except Failure SymbolTable :=
  (declarations.flatMap Declaration.entries).foldlM (addEntry registry) t

/-- Adds ids. -/
def addIds (t : SymbolTable) (ids : List String) : SymbolTable :=
  ids.foldl (fun t id => t.insert (.scalar .id id)) t

end SymbolTable

namespace Collect

/-- What a directory of values begins with. -/
def valuesPrefix : String := "values"

/-- Does the directory hold declarations of values? -/
def isValuesDirectory (directory : String) : Bool :=
  Text.startsWith valuesPrefix.toList directory.toList

/-- The name of the directory that a file is in. -/
def directoryOf (file : Path) : String :=
  file.directoryName?.getD ""

/-- The name of the resource that a file is: the file name less its extension,
up to the first `.9`. -/
def resourceName (file : Path) : String :=
  String.ofList (Text.beforeFirst ['.', '9'] (file.fileStem?.getD "").toList)

/-- The symbols that a values file declares. -/
def valuesFile (registry : Registry) (tree : Tree) (file : Path) :
    Except Failure SymbolTable := do
  let contents ← tree.read file
  match Declaration.readAll? contents with
  | none => throw (.malformedMarkup file)
  | some declarations => SymbolTable.empty.addDeclarations registry declarations

/-- The ids that a file declares.  Only documents are looked into. -/
def idsOf (tree : Tree) (file : Path) : Except Failure (List String) :=
  if file.extension? = some "xml" then do
    let contents ← tree.read file
    match ViewId.readAll? contents with
    | none => throw (.malformedMarkup file)
    | some ids => return ids
  else return []

/-- The kind of the resources in a directory. -/
def kindOfDirectory (directory : String) : Except Failure ResourceKind :=
  match ResourceKind.ofDirectoryName? directory with
  | some kind => .ok kind
  | none => .error (.unknownKind (ResourceKind.directoryBase directory))

/-- The symbols that a file declares by its name and by the ids in it. -/
def resourceFile (tree : Tree) (file : Path) : Except Failure SymbolTable := do
  let ids ← idsOf tree file
  let kind ← kindOfDirectory (directoryOf file)
  return (SymbolTable.empty.addIds ids).insert (.scalar kind (resourceName file))

/-- The symbols that a file declares. -/
def file (registry : Registry) (tree : Tree) (file : Path) : Except Failure SymbolTable :=
  if isValuesDirectory (directoryOf file) then valuesFile registry tree file
  else resourceFile tree file

/-- The symbols of a file, and the file. -/
def located (registry : Registry) (tree : Tree) (path : Path) :
    Except Failure (Path × SymbolTable) := do
  return (path, ← file registry tree path)

/-- The tables of several files, merged in the order of their paths. -/
def merged (tables : List (Path × SymbolTable)) : SymbolTable :=
  (tables.mergeSort fun a b => a.1.le b.1).foldl (fun t part => t.merge part.2) .empty

/-- Adds the symbols of lines. -/
def addLines (t : SymbolTable) (lines : List String) : Except Failure SymbolTable :=
  lines.foldlM SymbolTable.addLine t

/-- The symbols of files and, unless they are kept out, those of the lines of
dependencies. -/
def all (registry : Registry) (nonTransitive : Bool) (tree : Tree) (files : List Path)
    (lines : List String) : Except Failure SymbolTable := do
  let tables ← files.mapM (located registry tree)
  let own := (merged tables).resize
  if nonTransitive then return own else addLines own lines

end Collect
end ResourceStubs
