import ResourceStubs.Discovery.IgnoreRule
import ResourceStubs.File.Tree

/-!
# The files below a directory

A walk goes from a directory to everything below it and passes over what is hidden and
what ignore files say.  What is below a directory that is passed over is not seen at
all, so a file is found exactly if nothing on the way to it is passed over.  Links are
not followed, except for the path where the walk begins; that path is never passed
over, and if it leads to a file, the file is all that is found.

## Which rules hold

Rules are in the files `.ignore` of the directories on the way, those above the start
included.  The nearest directory that has a rule for something decides.  If there is
none, the files `.gitignore` and after them `.git/info/exclude` decide in the same way,
but only in and below the nearest directory with a `.git` in it, and only if there is
such a directory.

What no rule is about is passed over if its name begins with a dot; a rule that keeps
it makes it seen.
-/

namespace ResourceStubs
namespace Tree

/-- What a path leads to from a directory. -/
def foundFrom? (t : Tree) (dir : Place) (segments : List String) : Option Entry :=
  match t.locate linkLimit dir segments with
  | some (.found _ e) => some e
  | _ => none

/-- The rules in a file of a directory, if the file is there. -/
def rulesAt (t : Tree) (dir : Place) (segments : List String) : List IgnoreRule :=
  match t.foundFrom? dir segments with
  | some (.file (.text s)) => IgnoreRule.ofFile s
  | _ => []

/-- Is a directory the root of a repository? -/
def isRepository (t : Tree) (dir : Place) : Bool :=
  (t.foundFrom? dir [".git"]).isSome

/-- The directories around a place, the nearest first. -/
def directoriesAround (place : Place) : List Place :=
  (List.range place.length).reverse.map fun n => place.take n

/-- The directories up to and with the first that is the root of a repository; none,
if there is no such directory. -/
def withinRepository (t : Tree) (dirs : List Place) : List Place :=
  match dirs.dropWhile fun dir => !t.isRepository dir with
  | [] => []
  | root :: _ => (dirs.takeWhile fun dir => !t.isRepository dir) ++ [root]

/-- What the rules in the files of some directories say of a place below all of them.
The first directory that has a rule for it decides. -/
def verdictIn? (t : Tree) (dirs : List Place) (segments : List String) (place : Place)
    (isDirectory : Bool) : Option Verdict :=
  dirs.findSome? fun dir =>
    IgnoreRule.verdict? (t.rulesAt dir segments) (place.drop dir.length) isDirectory

/-- What the rules say of a place. -/
def verdict? (t : Tree) (place : Place) (isDirectory : Bool) : Option Verdict :=
  let dirs := directoriesAround place
  let near := t.withinRepository dirs
  t.verdictIn? dirs [".ignore"] place isDirectory <|>
    t.verdictIn? near [".gitignore"] place isDirectory <|>
    t.verdictIn? near [".git", "info", "exclude"] place isDirectory

/-- Does a name begin with a dot?  One that ends with a dot is not hidden by it. -/
def isHiddenName (name : String) : Bool :=
  name.toList.head? == some '.' && name.toList.getLast? != some '.'

/-- Does a walk pass over a place? -/
def isPassedOver (t : Tree) (place : Place) : Bool :=
  match t.verdict? place (t.find? place matches some .directory) with
  | some .ignored => true
  | some .kept => false
  | none => place.getLast?.any isHiddenName

/-- Is everything seen on the way from a directory to something below it? -/
def isSeen (t : Tree) (dir : Place) (names : List String) : Bool :=
  (List.range names.length).all fun n => !t.isPassedOver (dir ++ names.take (n + 1))

/-- The names on the way from a directory to a place below it. -/
def namesBelow? (dir place : Place) : Option (List String) :=
  if dir.isPrefixOf place ∧ dir.length < place.length then some (place.drop dir.length)
  else none

/-- The files that a walk from a path finds.  A dash alone is no path to walk from. -/
def walk (t : Tree) (start : Path) : List Path :=
  if start.text = "-" then []
  else match t.target? start with
    | some (.found _ (.file _)) => [start]
    | some (.found dir .directory) =>
        t.entries.filterMap fun
          | (place, .file _) => do
              let names ← namesBelow? dir place
              if t.isSeen dir names then some (names.foldl (fun p n => p.join ⟨n⟩) start)
              else none
          | _ => none
    | _ => []

end Tree
end ResourceStubs
