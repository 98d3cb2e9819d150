import ResourceStubs.File.Path

/-!
# Source text of the generated code

Source text grows line by line, each line indented by two spaces for every block
that is open.  Opening a block writes its header with a brace behind it; closing
one writes a brace on a line of its own.  An empty line has no indentation.

A `CompilationUnit` is one type declaration with the package that it stands in.
Its place below an output directory has one directory for each segment of the
package name.
-/

namespace ResourceStubs
namespace Java

/-- Source text with the depth at which the next line stands. -/
structure SourceText where
  content : String := ""
  depth : Nat := 0
  deriving DecidableEq, Repr

namespace SourceText

/-- The blanks in front of a line at a depth. -/
def indentation (depth : Nat) : String :=
  String.ofList (List.replicate (2 * depth) ' ')

/-- One more line.  An empty one is not indented. -/
def line (s : SourceText) (text : String) : SourceText :=
  if text.isEmpty then { s with content := s.content ++ "\n" }
  else { s with content := s.content ++ indentation s.depth ++ text ++ "\n" }

/-- One more empty line. -/
def blank (s : SourceText) : SourceText :=
  { s with content := s.content ++ "\n" }

/-- Lines one after the other. -/
def lines (s : SourceText) (texts : List String) : SourceText :=
  texts.foldl line s

/-- The next line stands one step deeper. -/
def indent (s : SourceText) : SourceText :=
  { s with depth := s.depth + 1 }

/-- The next line stands one step less deep, if it is not at the margin. -/
def dedent (s : SourceText) : SourceText :=
  { s with depth := s.depth - 1 }

/-- Opens a block with a header. -/
def openBlock (s : SourceText) (header : String) : SourceText :=
  (s.line (header ++ " \x7b")).indent

/-- Closes the innermost block. -/
def closeBlock (s : SourceText) : SourceText :=
  s.dedent.line "\x7d"

@[simp] theorem depth_line (s : SourceText) (text : String) : (s.line text).depth = s.depth := by
  unfold line
  split <;> rfl

@[simp] theorem depth_blank (s : SourceText) : s.blank.depth = s.depth := rfl

@[simp] theorem depth_lines (s : SourceText) (texts : List String) :
    (s.lines texts).depth = s.depth := by
  unfold lines
  induction texts generalizing s with
  | nil => rfl
  | cons t ts ih => simp [ih]

@[simp] theorem depth_openBlock (s : SourceText) (header : String) :
    (s.openBlock header).depth = s.depth + 1 := by
  simp [openBlock, indent]

@[simp] theorem depth_closeBlock (s : SourceText) : s.closeBlock.depth = s.depth - 1 := by
  simp [closeBlock, dedent]

end SourceText

/-- One type declaration, and the package that it belongs to. -/
structure CompilationUnit where
  package : String
  typeName : String
  body : String
  deriving DecidableEq, Repr

namespace CompilationUnit

/-- The text of the source file.  Without a package there is no package line. -/
def source (u : CompilationUnit) : String :=
  if u.package.isEmpty then u.body
  else "package " ++ u.package ++ ";\n\n" ++ u.body

/-- The segments of the package name that are not empty. -/
def packageSegments (u : CompilationUnit) : List String :=
  ((Text.pieces '.' u.package.toList).filter fun s => !s.isEmpty).map String.ofList

/-- The place of the source file below an output directory:
`com/example/Foo.java` for `com.example.Foo`. -/
def relativePath (u : CompilationUnit) : Path :=
  (u.packageSegments.foldl (fun (p : Path) s => p.join ⟨s⟩) ⟨""⟩).join ⟨u.typeName ++ ".java"⟩

end CompilationUnit
end Java
end ResourceStubs
