import ResourceStubs.Binding.TypeStore
import ResourceStubs.Java.Resolve
import ResourceStubs.Resource.ViewId

/-!
# Reading a layout

The tags of a layout are read from the first to the last.  An import gives a type
a short name from there on, a variable is a bindable, and any other tag with a new
id (one with a plus sign in the reference) is a binding: of the included layout if
the tag is an include, and of a view otherwise.  A name that comes again is passed
over.  Reading ends at the first tag that lacks something it needs.

The type of a view follows from its tag: a tag with a dot in it is a class by
itself, and the views of the platform have their packages.
-/

namespace ResourceStubs

open Markup

/-- What has been read of a layout. -/
structure LayoutState where
  aliases : Aliases
  bindings : List Binding
  bindables : List Binding
  deriving DecidableEq, Repr

namespace LayoutState

/-- Nothing has been read. -/
def start : LayoutState := ⟨[], [], []⟩

/-- Adds a binding at the end, unless one of its name is there. -/
def pushNamed (bindings : List Binding) (b : Binding) : List Binding :=
  if bindings.any fun other => other.rawName == b.rawName then bindings else bindings ++ [b]

end LayoutState

namespace Layout

/-- The value of an attribute that a tag has to have. -/
def required (file : Path) (tag : Tag) (attributeName : String) : Except Failure String :=
  match tag.attributes.get? attributeName with
  | some value => .ok value
  | none => .error (.missingAttribute file tag.name attributeName)

/-- The type of the expression in a tag. -/
def resolveIn (file : Path) (tag : Tag) (aliases : Aliases) (expression : String) :
    Except Failure JavaType :=
  match JavaType.resolve aliases expression with
  | .ok t => .ok t
  | .error e => .error (.malformedType file tag.name e)

/-- The text after the last dot. -/
def simpleName (qualified : String) : String :=
  String.ofList (Text.afterLast ['.'] qualified.toList)

/-- The type of the view that a tag stands for. -/
def viewType (tag : String) : JavaType :=
  if '.' ∈ tag.toList then .named tag
  else if tag = "ViewStub" then .named "androidx.databinding.ViewStubProxy"
  else if tag ∈ ["View", "ViewGroup", "TextureView", "SurfaceView"] then
    .named ("android.view." ++ tag)
  else if tag = "WebView" then .named ("android.webkit." ++ tag)
  else .named ("android.widget." ++ tag)

/-- The type of an included layout, and whether it is missing.  A missing one gets
the class that it would have in the module. -/
def includedType (package : String) (types : LayoutTypes) (layout : String) : JavaType × Bool :=
  match types.get? layout with
  | some t => (t, false)
  | none => (LayoutData.localClass package layout, true)

/-- The new id that a tag declares, if it declares one. -/
def newId? (tag : Tag) : Option String :=
  match tag.attributes.get? ViewId.key with
  | some reference =>
      if '+' ∈ reference.toList then
        some (String.ofList (Text.afterLast "@+id/".toList reference.toList))
      else none
  | none => none

/-- The layout that a reference names. -/
def includedLayout (reference : String) : String :=
  String.ofList (Text.afterLast "@layout/".toList reference.toList)

/-- The binding of a tag with a new id. -/
def bindingOf (package : String) (types : LayoutTypes) (file : Path) (tag : Tag)
    (rawName : String) : Except Failure Binding :=
  if tag.name = "include" then do
    let layout := includedLayout (← required file tag "layout")
    let (type, missing) := includedType package types layout
    return ⟨rawName, type, .included layout missing⟩
  else return ⟨rawName, viewType tag.name, .view⟩

/-- Reads one tag. -/
def readTag (package : String) (types : LayoutTypes) (file : Path) (s : LayoutState)
    (tag : Tag) : Except Failure LayoutState :=
  if tag.name = "import" then do
    let expression ← required file tag "type"
    let shortName := (tag.attributes.get? "alias").getD (simpleName expression)
    let type ← resolveIn file tag s.aliases expression
    return { s with aliases := s.aliases.insert shortName type }
  else if tag.name = "variable" then do
    let rawName ← required file tag "name"
    let expression ← required file tag "type"
    let type ← resolveIn file tag s.aliases expression
    return { s with bindables := LayoutState.pushNamed s.bindables ⟨rawName, type, .variable⟩ }
  else match newId? tag with
    | none => return s
    | some rawName => do
        let b ← bindingOf package types file tag rawName
        return { s with bindings := LayoutState.pushNamed s.bindings b }

/-- Reads the tags of a document, and then sees whether the document was whole. -/
def readTags (package : String) (types : LayoutTypes) (file : Path) (sequence : TagSequence) :
    Except Failure LayoutData := do
  let s ← sequence.tags.foldlM (readTag package types file) .start
  if sequence.whole then
    return ⟨LayoutData.layoutOfFile file, some file, s.bindings, s.bindables⟩
  else throw (.malformedMarkup file)

/-- Reads the contents of a layout file. -/
def readContents (package : String) (types : LayoutTypes) (file : Path) (contents : String) :
    Except Failure LayoutData :=
  readTags package types file (tagsOf (Markup.read contents))

/-- Reads a layout file. -/
def readFile (package : String) (types : LayoutTypes) (tree : Tree) (file : Path) :
    Except Failure LayoutData := do
  readContents package types file (← tree.read file)

/-- Keeps the first layout of every name. -/
def firstOfEachName (layouts : List LayoutData) : List LayoutData :=
  layouts.foldl
    (fun kept d => if kept.any fun k => k.layout == d.layout then kept else kept ++ [d]) []

/-- Reads layout files.  Of several files of one layout the first is kept. -/
def readFiles (package : String) (types : LayoutTypes) (tree : Tree) (files : List Path) :
    Except Failure (List LayoutData) := do
  return firstOfEachName (← files.mapM (readFile package types tree))

end Layout
end ResourceStubs
