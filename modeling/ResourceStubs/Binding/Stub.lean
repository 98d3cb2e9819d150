import ResourceStubs.Binding.Basic
import ResourceStubs.Java.Source

/-!
# Binding classes

The binding class of a layout is abstract and does nothing: it is there to be
compiled against.  It has a field for every binding and every bindable, a
constructor that takes the bindings, an abstract setter and a getter for every
bindable, and the static methods that make an instance.

Fields are ordered by name.  Methods are ordered by name as well, with the
constructor before all of them; methods of one name keep the order in which they
are listed here.  Some tags stand for no view, and a binding of their type has
neither a field nor a parameter.
-/

namespace ResourceStubs
namespace Stub

open Java

/-- The types of tags that stand for no view. -/
def viewlessTypes : List String :=
  ["android.widget.fragment", "android.widget.layout"]

/-- The bindings that the class has a field for. -/
def fieldBindings (d : LayoutData) : List Binding :=
  d.bindings.filter fun b => b.type.text ∉ viewlessTypes

/-- A field with its name, and the lines that declare it. -/
structure Field where
  name : String
  lines : List String
  deriving DecidableEq, Repr

/-- The field of a binding. -/
def bindingField (b : Binding) : Field :=
  ⟨b.name, ["@androidx.annotation.NonNull",
    "public final " ++ b.type.text ++ " " ++ b.name ++ ";"]⟩

/-- The name of the field of a bindable. -/
def bindableFieldName (b : Binding) : String :=
  "m" ++ capitalize b.name

/-- The field of a bindable. -/
def bindableField (b : Binding) : Field :=
  ⟨bindableFieldName b, ["@androidx.databinding.Bindable",
    "protected " ++ b.type.text ++ " " ++ bindableFieldName b ++ ";"]⟩

/-- The fields in the order of their names. -/
def fields (d : LayoutData) : List Field :=
  ((fieldBindings d).map bindingField ++ d.bindables.map bindableField).mergeSort
    fun f g => (compare f.name g.name).isLE

/-- A method with the name that it is ordered by.  Without a body it is
abstract. -/
structure Method where
  name : String
  annotation : Option String
  signature : String
  body : Option (List String)
  deriving DecidableEq, Repr

/-- The name that the constructor is ordered by; it stands before every name of a
method. -/
def constructorName : String := "<init>"

/-- The body of every method that is not abstract. -/
def stubBody : List String := ["throw new RuntimeException(\"Stub!\");"]

/-- The parameters that every constructor has. -/
def fixedParameters : List String :=
  ["java.lang.Object _bindingComponent", "android.view.View _root", "int _localFieldCount"]

/-- The parameter of a binding. -/
def parameter (b : Binding) : String :=
  b.type.text ++ " " ++ b.name

/-- The line that sets the field of a binding. -/
def assignment (b : Binding) : String :=
  "this." ++ b.name ++ " = " ++ b.name ++ ";"

/-- The constructor. -/
def constructor (className : String) (bindings : List Binding) : Method :=
  ⟨constructorName, none,
    "protected " ++ className ++ "(" ++
      ", ".intercalate (fixedParameters ++ bindings.map parameter) ++ ")",
    some ("super(_bindingComponent, _root, _localFieldCount);" :: bindings.map assignment)⟩

/-- The setter of a bindable. -/
def setter (b : Binding) : Method :=
  let name := "set" ++ capitalize b.name
  ⟨name, none, "public abstract void " ++ name ++ "(" ++ b.type.text ++ " var1)", none⟩

/-- The getter of a bindable. -/
def getter (b : Binding) : Method :=
  let name := "get" ++ capitalize b.name
  ⟨name, some "@androidx.annotation.Nullable", "public " ++ b.type.text ++ " " ++ name ++ "()",
    some stubBody⟩

/-- A static method that makes an instance of the class. -/
def factory (qualified name : String) (parameters : List String) : Method :=
  ⟨name, some "@androidx.annotation.NonNull",
    "public static " ++ qualified ++ " " ++ name ++ "(" ++ ", ".intercalate parameters ++ ")",
    some stubBody⟩

/-- The static methods of the class. -/
def factories (qualified : String) : List Method :=
  let inflater := "android.view.LayoutInflater inflater"
  let root := "android.view.ViewGroup root"
  let attach := "boolean attachToRoot"
  let view := "android.view.View view"
  let component := "java.lang.Object component"
  [factory qualified "inflate" [inflater],
   factory qualified "inflate" [inflater, root, attach],
   factory qualified "inflate" [inflater, root, attach, component],
   factory qualified "bind" [view],
   factory qualified "bind" [view, component]]

/-- The package of the binding classes of a module. -/
def packageOf (package : String) : String :=
  package ++ ".databinding"

/-- The methods in the order of their names. -/
def methods (package : String) (d : LayoutData) : List Method :=
  (constructor d.className (fieldBindings d) ::
    (d.bindables.flatMap (fun b => [setter b, getter b]) ++
      factories (packageOf package ++ "." ++ d.className))).mergeSort
    fun m n => (compare m.name n.name).isLE

/-- One more method. -/
def addMethod (s : SourceText) (m : Method) : SourceText :=
  let s := s.lines m.annotation.toList
  match m.body with
  | some body => ((s.openBlock m.signature).lines body).closeBlock
  | none => s.line (m.signature ++ ";")

/-- Methods with an empty line before each. -/
def addSpacedMethods (s : SourceText) (methods : List Method) : SourceText :=
  methods.foldl (fun (s : SourceText) m => addMethod s.blank m) s

/-- Methods, and an empty line between two members of the class. -/
def addMethods (s : SourceText) (afterFields : Bool) : List Method → SourceText
  | [] => s
  | first :: rest =>
      addSpacedMethods (addMethod (if afterFields then s.blank else s) first) rest

/-- The binding class of a layout. -/
def render (package : String) (d : LayoutData) : CompilationUnit :=
  let header := "public abstract class " ++ d.className ++
    " extends androidx.databinding.ViewDataBinding"
  let fields := fields d
  let s := (SourceText.openBlock {} header).lines (fields.flatMap Field.lines)
  ⟨packageOf package, d.className,
    (addMethods s (!fields.isEmpty) (methods package d)).closeBlock.content⟩

/-- The interface that gives binding classes what they need at run time.  It is
empty. -/
def component : CompilationUnit :=
  ⟨"androidx.databinding", "DataBindingComponent",
    (SourceText.openBlock {} "public interface DataBindingComponent").closeBlock.content⟩

end Stub
end ResourceStubs
