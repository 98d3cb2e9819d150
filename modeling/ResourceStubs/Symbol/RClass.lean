import ResourceStubs.Java.Name
import ResourceStubs.Java.Source
import ResourceStubs.Symbol.Table

/-!
# The class `R`

The class has a nested class for every kind that has a symbol, and in it a field
for every symbol.  In the class of the styleables, the array of a group is
followed by one field for each member, named for the group and the member, with
the position of the member in the array.

Names become identifiers, and two names may become the same one.  A field is
declared once: a symbol whose identifier is taken is left out with all its
members, and a member whose identifier is taken is left out by itself.  Fields
are not final, so that nobody compiles a placeholder into a class that uses it.
-/

namespace ResourceStubs
namespace RClass

open Java

/-- A field of a nested class. -/
structure Field where
  type : String
  name : String
  value : String
  deriving DecidableEq, Repr

/-- The declaration of a field. -/
def Field.declaration (f : Field) : String :=
  "public static " ++ f.type ++ " " ++ f.name ++ " = " ++ f.value ++ ";"

/-- The field of a symbol.  It is an array only if its value is one. -/
def ownField (e : SymbolEntry) : Field :=
  if e.isArray ∧ e.value.toList.head? = some '\x7b' then
    ⟨"int[]", identifier e.name, e.value⟩
  else ⟨"int", identifier e.name, e.value⟩

/-- The fields of the members of a group from a position on, less those whose
name is taken. -/
def memberFields (group : String) (taken : List String) (position : Nat) :
    List String → List Field
  | [] => []
  | member :: rest =>
      let name := group ++ "_" ++ identifier member
      if name ∈ taken then memberFields group taken (position + 1) rest
      else ⟨"int", name, toString position⟩ ::
        memberFields group (name :: taken) (position + 1) rest

/-- The fields for the members that a symbol has. -/
def membersOf (t : SymbolTable) (taken : List String) (e : SymbolEntry) : List Field :=
  if e.kind = .styleable then
    memberFields (identifier e.name) taken 0 ((t.members? e.name).getD [])
  else []

/-- The fields of symbols, less those whose name is taken. -/
def fieldsFrom (t : SymbolTable) (taken : List String) : List SymbolEntry → List Field
  | [] => []
  | e :: rest =>
      let own := ownField e
      if own.name ∈ taken then fieldsFrom t taken rest
      else
        let members := membersOf t (own.name :: taken) e
        own :: members ++ fieldsFrom t (members.map Field.name ++ own.name :: taken) rest

/-- The fields of the nested class of a kind. -/
def fields (t : SymbolTable) (kind : ResourceKind) : List Field :=
  fieldsFrom t [] (t.entries kind)

/-- The kinds that have a nested class, in order. -/
def kinds (t : SymbolTable) : List ResourceKind :=
  (t.buckets.filter fun (_, bucket) => !bucket.isEmpty).map Prod.fst

/-- One more nested class. -/
def addClass (t : SymbolTable) (s : SourceText) (kind : ResourceKind) : SourceText :=
  ((s.openBlock ("public static final class " ++ kind.name)).lines
    ((fields t kind).map Field.declaration)).closeBlock

/-- Nested classes with an empty line between two of them. -/
def addClasses (t : SymbolTable) (s : SourceText) : List ResourceKind → SourceText
  | [] => s
  | first :: rest =>
      rest.foldl (fun (s : SourceText) kind => addClass t s.blank kind) (addClass t s first)

/-- The class `R` of a package with the symbols of a table. -/
def render (package : String) (t : SymbolTable) : CompilationUnit :=
  ⟨package, "R",
    (addClasses t (SourceText.openBlock {} "public final class R") (kinds t)).closeBlock.content⟩

end RClass
end ResourceStubs
