import ResourceStubs.Discovery.Glob
import ResourceStubs.Text.Blank
import ResourceStubs.Text.Search

/-!
# Rules of ignore files

An ignore file has a rule on every line that is not blank and no comment.  A rule is
about what is below the directory of its file, and says of what its pattern matches
that it is ignored or, after an exclamation mark, that it is kept.  A slash at the end
makes it a rule about directories only.  A slash anywhere else ties the pattern to the
directory of the file; without one, the pattern may match anywhere below it.

Of several rules for the same thing the last one counts.  A line whose pattern cannot
be read is passed over.
-/

namespace ResourceStubs

/-- What a rule says of what it matches. -/
inductive Verdict where
  | ignored
  | kept
  deriving DecidableEq, Repr

/-- A rule of an ignore file. -/
structure IgnoreRule where
  glob : Glob
  verdict : Verdict
  directoriesOnly : Bool
  deriving Repr

namespace IgnoreRule

open Text

/-- A line less the blanks at its end, unless a backslash keeps the last one. -/
def trimLine (line : List Char) : List Char :=
  if endsWith ['\\', ' '] line then line else dropEndWhile isBlank line

/-- What a line says before its pattern: the verdict, whether a slash at the start
ties the pattern to the directory of the file, and the rest of the line.  A backslash
before an exclamation mark or a number sign takes its meaning away. -/
def cutLead (line : List Char) : Verdict × Bool × List Char :=
  match line with
  | '\\' :: '!' :: _ | '\\' :: '#' :: _ => (.ignored, false, line.drop 1)
  | '!' :: '/' :: rest => (.kept, true, rest)
  | '!' :: rest => (.kept, false, rest)
  | '/' :: rest => (.ignored, true, rest)
  | _ => (.ignored, false, line)

/-- What a line says after its pattern: whether a slash makes it a rule about
directories, and the pattern. -/
def cutTrail (line : List Char) : Bool × List Char :=
  if line.getLast? = some '/' then
    let pattern := line.dropLast
    (true, if pattern.getLast? = some '\\' then pattern.dropLast else pattern)
  else (false, line)

/-- The pattern that is matched with whole paths.  One that may match anywhere gets
any directories before it, and one for everything below a directory gets a name after
it, so that it does not match the directory. -/
def wholePattern (tied : Bool) (pattern : List Char) : List Char :=
  let anywhere := !tied && !pattern.contains '/'
  let pattern :=
    if anywhere && pattern != ['*', '*'] then ['*', '*', '/'] ++ pattern else pattern
  if endsWith ['/', '*', '*'] pattern then pattern ++ ['/', '*'] else pattern

/-- The rule of a line. -/
def ofLine? (line : List Char) : Option IgnoreRule :=
  let line := trimLine line
  if line.isEmpty || line.head? == some '#' then none
  else
    let (verdict, tied, rest) := cutLead line
    let (directoriesOnly, pattern) := cutTrail rest
    (Glob.ofText? (String.ofList (wholePattern tied pattern))).map fun glob =>
      ⟨glob, verdict, directoriesOnly⟩

/-- The rules of a file, in order.  A byte order mark at its start is no part of it. -/
def ofFile (text : String) : List IgnoreRule :=
  (lines (text.toList.dropWhile (· == '\uFEFF'))).filterMap ofLine?

/-- Is the rule about a path below its file? -/
def matchesPath (rule : IgnoreRule) (names : List String) (isDirectory : Bool) : Bool :=
  (isDirectory || !rule.directoriesOnly) && rule.glob.accepts ("/".intercalate names)

/-- What the rules say of a path below their file, given by its names. -/
def verdict? (rules : List IgnoreRule) (names : List String) (isDirectory : Bool) :
    Option Verdict :=
  (rules.reverse.find? fun rule => rule.matchesPath names isDirectory).map IgnoreRule.verdict

end IgnoreRule
end ResourceStubs
