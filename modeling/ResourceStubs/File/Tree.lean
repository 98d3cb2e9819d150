import ResourceStubs.File.Path

/-!
# File trees

A `Tree` is a file system as a value: for every place that something is at, what
is there.  A place is the list of names on the way from the root, without `.`,
`..` or links.  Reading and writing go through `Tree.locate`, which follows a
path from the working directory to a place.

A file holds a text, or bytes that are no text; nothing here looks at bytes more
closely.  Links are followed forty times at most on the way, so that a circle of
links leads nowhere.

## What may fail

Reading fails if nothing is there, if a directory is there, and if the bytes are
no text.  Creating directories and writing fail if something else is in the way,
or if a name is too long or has the character zero in it.  The directories that
were created before one could not be are left in the tree; only a path with the
character zero in it is refused before anything is done.  A write replaces what
the file held.
-/

namespace ResourceStubs

/-- What a file holds. -/
inductive Content where
  | text (s : String)
  | binary
  deriving DecidableEq, Repr

/-- What is at a place. -/
inductive Entry where
  | file (content : Content)
  | directory
  | link (target : Path)
  deriving DecidableEq, Repr

/-- A place: the names on the way from the root. -/
abbrev Place := List String

/-- A file system as a value, with the directory that relative paths start
from. -/
structure Tree where
  entries : List (Place × Entry)
  workingDirectory : Place
  deriving Repr

namespace Tree

/-- Sets what is at a place, in the list of all places. -/
def putEntry (place : Place) (e : Entry) : List (Place × Entry) → List (Place × Entry)
  | [] => [(place, e)]
  | (other, x) :: rest =>
      if other = place then (place, e) :: rest else (other, x) :: putEntry place e rest

/-- What is at a place.  The root is a directory. -/
def find? (t : Tree) (place : Place) : Option Entry :=
  if place = [] then some .directory else t.entries.lookup place

/-- Sets what is at a place. -/
def put (t : Tree) (place : Place) (e : Entry) : Tree :=
  { t with entries := putEntry place e t.entries }

theorem lookup_putEntry (place other : Place) (e : Entry) (entries : List (Place × Entry)) :
    (putEntry place e entries).lookup other =
      if other = place then some e else entries.lookup other := by
  induction entries with
  | nil =>
    by_cases h : other = place
    · simp [putEntry, h]
    · have h' : (other == place) = false := by simpa using h
      simp [putEntry, List.lookup_cons, h, h']
  | cons x rest ih =>
    obtain ⟨key, y⟩ := x
    rw [putEntry]
    by_cases hk : key = place
    · by_cases h : other = place
      · simp [hk, h]
      · have h' : (other == place) = false := by simpa using h
        simp [hk, h, List.lookup_cons, h']
    · by_cases hkey : other = key
      · subst hkey
        simp [hk]
      · have h' : (other == key) = false := by simpa using hkey
        simp [hk, List.lookup_cons, h', ih]

/-- After a put, the place has the new entry and all others have what they
had. -/
theorem find?_put {t : Tree} {place : Place} (hne : place ≠ []) (other : Place) (e : Entry) :
    (t.put place e).find? other = if other = place then some e else t.find? other := by
  by_cases h : other = place
  · subst h
    simp [find?, put, hne, lookup_putEntry]
  · by_cases hr : other = []
    · simp [find?, hr, Ne.symm hne]
    · simp [find?, put, hr, h, lookup_putEntry]

/-- Where a path leads to: a place with something at it, or a place in an
existing directory with nothing at it. -/
inductive Target where
  | found (place : Place) (entry : Entry)
  | vacant (place : Place)
  deriving Repr

/-- Follows segments from the directory `dir`, going through `links` links at
most. -/
def locate (t : Tree) (links : Nat) (dir : Place) (segments : List String) : Option Target :=
  match segments with
  | [] => some (.found dir .directory)
  | segment :: rest =>
      if Path.isIdle segment then t.locate links dir rest
      else if segment = ".." then t.locate links dir.dropLast rest
      else
        let place := dir ++ [segment]
        match t.find? place with
        | none => if rest.isEmpty then some (.vacant place) else none
        | some .directory => t.locate links place rest
        | some (.file content) =>
            if rest.isEmpty then some (.found place (.file content)) else none
        | some (.link target) =>
            match links with
            | 0 => none
            | links + 1 =>
                t.locate links (if target.isAbsolute then [] else dir) (target.segments ++ rest)
termination_by (links, segments.length)

/-- How many links may be on a path. -/
def linkLimit : Nat := 40

/-- The directory that the segments of a path start from. -/
def startOf (t : Tree) (p : Path) : Place :=
  if p.isAbsolute then [] else t.workingDirectory

/-- Where a path leads to.  The empty path leads nowhere. -/
def target? (t : Tree) (p : Path) : Option Target :=
  if p.text.isEmpty then none else t.locate linkLimit (t.startOf p) p.segments

/-- Is there something at the end of the path? -/
def isPresent (t : Tree) (p : Path) : Bool :=
  match t.target? p with
  | some (.found _ _) => true
  | _ => false

/-- The text of the file at the end of the path. -/
def readText? (t : Tree) (p : Path) : Option String :=
  match t.target? p with
  | some (.found _ (.file (.text s))) => some s
  | _ => none

/-- May a new file or directory have this name? -/
def nameFits (name : String) : Bool :=
  name.utf8ByteSize ≤ 255 && !name.toList.contains '\x00'

/-- Creates the directories that `segments` lead through, from the directory
`dir`.  If one cannot be created, the error is the tree with those before it. -/
def createDirectoriesFrom (t : Tree) (dir : Place) : List String → Except Tree Tree
  | [] => .ok t
  | segment :: rest =>
      if Path.isIdle segment then t.createDirectoriesFrom dir rest
      else if segment = ".." then t.createDirectoriesFrom dir.dropLast rest
      else
        let place := dir ++ [segment]
        match t.find? place with
        | none =>
            if nameFits segment then (t.put place .directory).createDirectoriesFrom place rest
            else .error t
        | some .directory => t.createDirectoriesFrom place rest
        | some (.file _) => .error t
        | some (.link _) =>
            match t.locate linkLimit dir [segment] with
            | some (.found place .directory) => t.createDirectoriesFrom place rest
            | _ => .error t

/-- The tree with the directory at the end of the path, and all directories on
the way to it.  The error is the tree as far as they could be created. -/
def createDirectories (t : Tree) (p : Path) : Except Tree Tree :=
  match t.createDirectoriesFrom (t.startOf p) p.segments with
  | .ok t => .ok t
  | .error partway => .error (if p.text.toList.contains '\x00' then t else partway)

/-- The tree with a text in the file at the end of the path. -/
def writeText (t : Tree) (p : Path) (s : String) : Option Tree :=
  match t.target? p with
  | some (.found place (.file _)) => some (t.put place (.file (.text s)))
  | some (.vacant place) =>
      if place.getLast?.any nameFits then some (t.put place (.file (.text s))) else none
  | _ => none

/-- What a directory holds, by name. -/
def children (t : Tree) (dir : Place) : List (String × Entry) :=
  t.entries.filterMap fun (place, e) =>
    match place.getLast? with
    | some name => if place = dir ++ [name] then some (name, e) else none
    | none => none

/-- The texts of all files, with their places. -/
def textFiles (t : Tree) : List (Place × String) :=
  t.entries.filterMap fun
    | (place, .file (.text s)) => some (place, s)
    | _ => none

/-- The tree with `e` at the end of the path below the working directory, and
directories on the way to it. -/
def plant (t : Tree) (p : Path) (e : Entry) : Tree :=
  go t t.workingDirectory (p.segments.filter fun s => !Path.isIdle s)
where
  go (t : Tree) (dir : Place) : List String → Tree
    | [] => t
    | [name] => t.put (dir ++ [name]) e
    | name :: rest =>
        let place := dir ++ [name]
        match t.find? place with
        | some .directory => go t place rest
        | _ => go (t.put place .directory) place rest

/-- A tree with nothing in it but the working directory and what is on the way
to it. -/
def bare (workingDirectory : Place) : Tree :=
  ⟨(List.range workingDirectory.length).map fun i =>
      (workingDirectory.take (i + 1), .directory), workingDirectory⟩

end Tree
end ResourceStubs
