import ResourceStubs.Text.Search

/-!
# Paths

A path is a text, kept as it was written, since messages and answers show it that
way.  What the text means is the list of its components: a slash separates two of
them, repeated slashes and a `.` between slashes say nothing, and a `.` at the
very start is a component of its own.

Two paths with the same components are the same place.  The order of paths goes
component by component, so `values/x` stands before `values-v21/x` although a
dash stands before a slash.
-/

namespace ResourceStubs

/-- A path as it was written. -/
structure Path where
  text : String
  deriving DecidableEq, Repr, Inhabited

namespace Path

/-- One step of a path. -/
inductive Component where
  | root
  | here
  | up
  | name (text : String)
  deriving DecidableEq, Repr

/-- The root stands before the current directory, that before the parent, and
that before all names. -/
def Component.rank : Component → Nat
  | .root => 0
  | .here => 1
  | .up => 2
  | .name _ => 3

/-- The name of a component that has one. -/
def Component.nameText : Component → String
  | .name text => text
  | _ => ""

/-- Components in the order of their ranks, and names by code points. -/
def Component.cmp : Component → Component → Ordering :=
  compareLex (compareOn Component.rank) (compareOn Component.nameText)

/-- Is this a path from the root? -/
def isAbsolute (p : Path) : Bool :=
  p.text.toList.head? == some '/'

/-- The texts between the slashes, empty ones included. -/
def segments (p : Path) : List String :=
  (Text.pieces '/' p.text.toList).map String.ofList

/-- A segment that says nothing. -/
def isIdle (segment : String) : Bool :=
  segment == "" || segment == "."

/-- The component of a segment that is not idle. -/
def Component.ofSegment (segment : String) : Component :=
  if segment = ".." then .up else .name segment

/-- The component that a path starts with before its first segment counts. -/
def lead (p : Path) : List Component :=
  if p.isAbsolute then [.root]
  else if p.segments.head? = some "." then [.here]
  else []

/-- The steps of the path, in order. -/
def components (p : Path) : List Component :=
  p.lead ++ (p.segments.filter fun s => !isIdle s).map Component.ofSegment

/-- Paths in the order of their components. -/
def cmp (p q : Path) : Ordering :=
  List.compareLex Component.cmp p.components q.components

/-- Does `p` stand before `q`, or in the same place? -/
def le (p q : Path) : Bool :=
  (cmp p q).isLE

/-- Do two paths have the same components? -/
def same (p q : Path) : Bool :=
  p.components == q.components

/-- The last component, if it is a name. -/
def fileName? (p : Path) : Option String :=
  match p.components.getLast? with
  | some (.name text) => some text
  | _ => none

/-- The segments less the last one that says something and the idle ones around
it. -/
def segmentsBeforeLast (segments : List String) : List String :=
  (((segments.reverse.dropWhile isIdle).drop 1).dropWhile isIdle).reverse

/-- The segments with slashes between them. -/
def joinSegments (segments : List String) : String :=
  "/".intercalate segments

/-- The path less its last component.  The root and the empty path have no
parent. -/
def parent? (p : Path) : Option Path :=
  match p.components.getLast? with
  | none => none
  | some .root => none
  | some .here => some ⟨""⟩
  | some _ =>
      match p.lead with
      | .root :: _ => some ⟨"/" ++ joinSegments (segmentsBeforeLast (p.segments.drop 1))⟩
      | .here :: _ =>
          -- the leading dot stays, so only what follows it is cut
          let rest := segmentsBeforeLast (p.segments.drop 1)
          some ⟨joinSegments ("." :: rest)⟩
      | _ => some ⟨joinSegments (segmentsBeforeLast p.segments)⟩

/-- The name of the directory that holds the path. -/
def directoryName? (p : Path) : Option String :=
  p.parent?.bind fileName?

/-- The parts of a file name around its last dot.  A dot at the very start is
part of the name. -/
def splitName (name : String) : String × Option String :=
  match Text.cutLast? ['.'] name.toList with
  | some (c :: cs, after) => (String.ofList (c :: cs), some (String.ofList after))
  | _ => (name, none)

/-- The file name less its extension. -/
def fileStem? (p : Path) : Option String :=
  p.fileName?.map fun name => (splitName name).1

/-- What follows the last dot of the file name. -/
def extension? (p : Path) : Option String :=
  p.fileName?.bind fun name => (splitName name).2

/-- The path of `q` as seen from `p`.  An absolute path replaces what stands
before it. -/
def join (p q : Path) : Path :=
  if q.isAbsolute then q
  else if p.text.isEmpty ∨ p.text.toList.getLast? = some '/' then ⟨p.text ++ q.text⟩
  else ⟨p.text ++ "/" ++ q.text⟩

/-- Keeps the first of every run of paths with the same components. -/
def dropRepeats : List Path → List Path
  | [] => []
  | [p] => [p]
  | p :: q :: rest =>
      if p.same q then dropRepeats (p :: rest) else p :: dropRepeats (q :: rest)
termination_by l => l.length

/-- The paths in order; paths in the same place keep the order they had. -/
def sort (paths : List Path) : List Path :=
  paths.mergeSort le

end Path
end ResourceStubs
