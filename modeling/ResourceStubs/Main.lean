import ResourceStubs.CommandLine.Program

/-!
# The program on the disk

The program itself is a function on file trees.  Here a tree is read from the disk that
holds whatever the program may look at, the function is applied to it, and what has
changed in the tree is written back.
-/

namespace ResourceStubs
namespace Disk

/-- The path of a place from the root. -/
def textOf (place : Place) : String :=
  "/" ++ "/".intercalate place

/-- The place of a path from the root without links. -/
def placeOf (p : Path) : Place :=
  p.segments.filter fun s => !Path.isIdle s

/-- What a file on the disk holds. -/
def contentOf (file : String) : IO Content := do
  match String.fromUTF8? (← IO.FS.readBinFile file) with
  | some s => return .text s
  | none => return .binary

/-- What is at a place of the disk.  A path that is not where it really leads is a
link. -/
def entryAt? (place : Place) : IO (Option Entry) := do
  let text := textOf place
  try
    let real ← IO.FS.realPath text
    if real.toString != text then
      return some (.link ⟨real.toString⟩)
    match (← real.metadata).type with
    | .dir => return some .directory
    | .file => return some (.file (← contentOf text))
    | _ => return none
  catch _ =>
    return none

/-- Adds what is on the way of a path from a directory. -/
partial def addWay (t : Tree) (dir : Place) (segments : List String) : IO Tree := do
  match segments with
  | [] => return t
  | segment :: rest =>
      if Path.isIdle segment then addWay t dir rest
      else if segment == ".." then addWay t dir.dropLast rest
      else
        let place := dir ++ [segment]
        match ← entryAt? place with
        | none => return t
        | some e =>
            let t := t.put place e
            match e with
            | .file _ => return t
            | .directory => addWay t place rest
            | .link target =>
                if target.text == textOf place then return t
                else addWay t [] (target.segments ++ rest)

/-- Adds what is on the way of a path from the working directory. -/
def addPath (t : Tree) (p : Path) : IO Tree :=
  addWay t (t.startOf p) p.segments

/-- Adds everything below a directory. -/
partial def addBelow (t : Tree) (dir : Place) : IO Tree := do
  let mut t := t
  for child in ← (← IO.FS.realPath (textOf dir)).readDir do
    let place := dir ++ [child.fileName]
    if let some e ← entryAt? place then
      t := t.put place e
      if e == .directory then
        t ← addBelow t place
  return t

/-- Adds the ignore files of the directories around a place. -/
def addIgnoreFiles (t : Tree) (place : Place) : IO Tree := do
  let mut t := t
  for dir in Tree.directoriesAround place do
    for file in [[".ignore"], [".gitignore"], [".git", "info", "exclude"]] do
      t ← addWay t dir file
  return t

/-- Adds what a walk from a path may look at. -/
def addWalk (t : Tree) (start : Path) : IO Tree := do
  let t ← addPath t start
  match t.target? start with
  | some (.found place .directory) => addIgnoreFiles (← addBelow t place) place
  | _ => return t

/-- Adds what a run with some settings reads, and what is on the way to its outputs. -/
def addInputs (t : Tree) (s : Settings) : IO Tree := do
  let mut t := t
  for dir in s.resourceDirs do
    t ← addWalk t dir
  for file in s.resourceFiles ++ s.classInfos ++ s.symbolLists do
    t ← addPath t file
  for dir in [s.output.rClass, s.output.stubs] do
    t ← addPath t dir
  return t

/-- The tree that the program looks at when it is called with some arguments. -/
def snapshot (arguments : List String) : IO Tree := do
  let here := placeOf ⟨(← IO.currentDir).toString⟩
  let t := Tree.bare here
  match CommandLine.Arguments.read arguments with
  | .error _ => return t
  | .ok a =>
      let mut t := t
      for file in a.settingsFile.toList ++ Settings.defaultNames do
        t ← addPath t file
      match CommandLine.loadSettings a t with
      | .ok s => addInputs t s
      | .error _ => return t

/-- Writes to the disk what is in one tree and not in another. -/
def writeChanges (before after : Tree) : IO Unit := do
  for (place, e) in after.entries do
    if before.find? place != some e then
      match e with
      | .directory => IO.FS.createDirAll (textOf place)
      | .file (.text s) => IO.FS.writeFile (textOf place) s
      | _ => pure ()

end Disk
end ResourceStubs

open ResourceStubs in
/-- Runs the program in the working directory. -/
def main (arguments : List String) : IO UInt32 := do
  let before ← Disk.snapshot arguments
  let (outcome, after) := CommandLine.run arguments before
  try
    Disk.writeChanges before after
  catch e =>
    IO.eprintln e.toString
    return 1
  IO.print outcome.output
  IO.eprint outcome.errors
  return UInt32.ofNat outcome.exitCode
