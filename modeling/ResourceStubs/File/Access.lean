import ResourceStubs.Failure
import ResourceStubs.File.Tree
import ResourceStubs.Java.Source

/-!
# Reading inputs and writing outputs

Inputs are read as texts, and a file that is none is a failure named for the
path.  A source file is written at its place below an output directory, after the
directories on the way have been made; if that cannot be done, the failure names
the directory.  A write that fails leaves the tree as far as it came: with the
directories that could be made, and without the file.
-/

namespace ResourceStubs

/-- The text of the file at the end of the path. -/
def Tree.read (t : Tree) (p : Path) : Except Failure String :=
  match t.readText? p with
  | some s => .ok s
  | none => .error (.unreadable p)

theorem Tree.read_eq_ok_iff {t : Tree} {p : Path} {s : String} :
    t.read p = .ok s ↔ t.readText? p = some s := by
  unfold Tree.read
  split <;> simp_all

namespace Java
namespace CompilationUnit

/-- Where the source file stands below a directory. -/
def pathBelow (u : CompilationUnit) (dir : Path) : Path :=
  dir.join u.relativePath

/-- Writes the source file below a directory. -/
def write (u : CompilationUnit) (dir : Path) (t : Tree) : Except Failure Unit × Tree :=
  let path := u.pathBelow dir
  let parent := path.parent?.getD ⟨""⟩
  match t.createDirectories parent with
  | .error t => (.error (.unwritable parent), t)
  | .ok t =>
      match t.writeText path u.source with
      | none => (.error (.unwritable path), t)
      | some t => (.ok (), t)

/-- Writes source files one after the other, up to the first that fails. -/
def writeAll (dir : Path) : List CompilationUnit → Tree → Except Failure Unit × Tree
  | [], t => (.ok (), t)
  | u :: rest, t =>
      match u.write dir t with
      | (.ok (), t) => writeAll dir rest t
      | (.error e, t) => (.error e, t)

end CompilationUnit
end Java
end ResourceStubs
