import ResourceStubs.File.Path
import ResourceStubs.Java.Name
import ResourceStubs.Java.TypeExpr

/-!
# Bindings

A layout binds names to types: to the views in it that are given an id, to the
layouts that it includes, and to its variables.  `LayoutData` is what is known of
one layout.  A layout that is included and nowhere to be found has no file; it is
written as if it were empty.
-/

namespace ResourceStubs

/-- What a name is bound to.  An included layout is missing if no store knows its
type. -/
inductive BindingKind where
  | view
  | variable
  | included (layout : String) (missing : Bool)
  deriving DecidableEq, Repr

/-- A name of a layout, with its type. -/
structure Binding where
  rawName : String
  type : JavaType
  kind : BindingKind
  deriving DecidableEq, Repr

/-- The name of the field. -/
def Binding.name (b : Binding) : String :=
  Java.camelCase b.rawName

/-- The layout that a binding includes and that is missing. -/
def Binding.missingLayout? (b : Binding) : Option String :=
  match b.kind with
  | .included layout true => some layout
  | _ => none

/-- What is known of a layout: `bindings` are its views and includes, `bindables`
its variables. -/
structure LayoutData where
  layout : String
  file : Option Path
  bindings : List Binding
  bindables : List Binding
  deriving DecidableEq, Repr

namespace LayoutData

/-- A layout with nothing in it. -/
def empty (layout : String) : LayoutData :=
  ⟨layout, none, [], []⟩

/-- The name of the binding class. -/
def className (d : LayoutData) : String :=
  Java.bindingClassName d.layout

/-- The layouts that are included and missing, in order. -/
def missingLayouts (d : LayoutData) : List String :=
  d.bindings.filterMap Binding.missingLayout?

/-- The name of the layout that a file holds: the file name up to the first
`.xml`. -/
def layoutOfFile (file : Path) : String :=
  String.ofList (Text.beforeFirst ".xml".toList (file.fileName?.getD "").toList)

/-- The binding class that a layout of the module gets. -/
def localClass (package layout : String) : JavaType :=
  .named (package ++ ".databinding." ++ Java.bindingClassName layout)

end LayoutData
end ResourceStubs
