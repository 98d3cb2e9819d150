import ResourceStubs.Binding.Basic
import ResourceStubs.Java.Source

/-!
# The class `BR`

The class numbers the names of all bindables of a module.  Each name has one
number however many layouts use it; the numbers go up by one in the order of the
names, from one on, and zero stands for all of them.
-/

namespace ResourceStubs
namespace BrClass

open Java

/-- In an ascending list, puts a name where it belongs, unless it is there. -/
def insertName (name : String) : List String → List String
  | [] => [name]
  | x :: rest =>
      match compare name x with
      | .lt => name :: x :: rest
      | .eq => x :: rest
      | .gt => x :: insertName name rest

/-- The names of all bindables, in order. -/
def names (layouts : List LayoutData) : List String :=
  (layouts.flatMap fun d => d.bindables.map Binding.name).foldl (fun l name => insertName name l) []

/-- The declarations of the names, numbered from `first` on. -/
def declarations (first : Nat) : List String → List String
  | [] => []
  | name :: rest =>
      ("public static int " ++ name ++ " = " ++ toString first ++ ";") ::
        declarations (first + 1) rest

/-- The class `BR` of a package. -/
def render (package : String) (layouts : List LayoutData) : CompilationUnit :=
  let s := (SourceText.openBlock {} "public class BR").line "public static final int _all = 0;"
  ⟨package, "BR", ((s.lines (declarations 1 (names layouts))).closeBlock).content⟩

end BrClass
end ResourceStubs
