import ResourceStubs.Proofs.Java.SourceLines
import ResourceStubs.Symbol.RClass

/-!
# The text of the class `R`

The source is the list of its nested classes between the header and the end of the
class (`body_render`).  A nested class has one line for each of its fields
(`nestedClass`), with the type, the name and the value of the field (`fieldText`).  So
what is said of the fields of a kind is said of the source.
-/

namespace ResourceStubs
namespace RClass

open Java

/-- The line of a field: its type, its name and its value. -/
def fieldText (f : Field) : String :=
  "public static " ++ f.type ++ " " ++ f.name ++ " = " ++ f.value ++ ";"

/-- The text of the nested class of a kind with the given fields. -/
def nestedClass (kind : ResourceKind) (fields : List Field) : String :=
  SourceText.blockText 1 ("public static final class " ++ kind.name) (fields.map fieldText)

/-- The text of the class with the given nested classes. -/
def classText (nested : List String) : String :=
  SourceText.lineText 0 "public final class R \x7b" ++ "\n".intercalate nested ++
    SourceText.lineText 0 "\x7d"

variable {t : SymbolTable}

/-- Every field is declared by its line. -/
theorem declaration_eq (f : Field) : f.declaration = fieldText f := rfl

theorem addClass_eq {s : SourceText} (hs : s.depth = 1) (kind : ResourceKind) :
    addClass t s kind = ⟨s.content ++ nestedClass kind (fields t kind), 1⟩ := by
  rw [addClass, SourceText.closeBlock_lines_openBlock, hs, nestedClass,
    funext declaration_eq]

theorem addClasses_eq {s : SourceText} (hs : s.depth = 1) (kinds : List ResourceKind) :
    addClasses t s kinds =
      ⟨s.content ++ "\n".intercalate (kinds.map fun kind => nestedClass kind (fields t kind)),
        1⟩ := by
  cases kinds with
  | nil =>
      rw [List.map_nil, String.intercalate_nil, String.append_empty, ← hs]
      rfl
  | cons kind kinds => exact SourceText.foldl_blank_eq addClass_eq hs kind kinds

/-- **The source is the list of its nested classes.** -/
theorem body_render (package : String) (t : SymbolTable) :
    (render package t).body =
      classText ((kinds t).map fun kind => nestedClass kind (fields t kind)) := by
  have hopen : (SourceText.openBlock {} "public final class R").depth = 1 := rfl
  have hempty : ({} : SourceText).content = "" := rfl
  have hdepth : ({} : SourceText).depth = 0 := rfl
  rw [render, addClasses_eq hopen, SourceText.closeBlock_eq, SourceText.openBlock_eq, hempty,
    hdepth, String.empty_append, classText]
  rfl

end RClass
end ResourceStubs
