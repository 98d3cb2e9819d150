/-!
# Values of TOML

A document is a table.  A table remembers how it came to be, since that says who
may still add to it: a table written in braces is closed, one with a header of its
own may not get a second header, one that only stands on the way to another header
may still get its own, and one that stands on the way to a dotted key may be added
to by dotted keys only.

Numbers and dates have to be well formed and are not kept.
-/

namespace ResourceStubs
namespace Toml

/-- How a table came to be. -/
inductive Origin where
  | braces
  | header
  | onHeaderPath
  | onKeyPath
  deriving DecidableEq, Repr

/-- A value of a document.  A list of tables is made by headers with two
brackets; its last table is the open one. -/
inductive Value where
  | string (text : String)
  | boolean (b : Bool)
  | number
  | date
  | array (items : List Value)
  | table (origin : Origin) (entries : List (String × Value))
  | tables (all : List (List (String × Value)))
  deriving Repr, Inhabited

/-- What a table holds, in the order of the document. -/
abbrev Entries := List (String × Value)

/-- Sets the value of a key that is there, or adds it at the end. -/
def setEntry (key : String) (v : Value) : Entries → Entries
  | [] => [(key, v)]
  | (k, x) :: rest => if k = key then (k, v) :: rest else (k, x) :: setEntry key v rest

/-- Changes the entries of the table at the end of a path, and makes the tables on
the way that are not there.  `dotted` says whether the path is that of a dotted
key; `change` is told how the last table came to be. -/
def alterAt (dotted : Bool) (change : Origin → Entries → Option Entries) (origin : Origin)
    (entries : Entries) : List String → Option Entries
  | [] => change origin entries
  | key :: path =>
      match entries.lookup key with
      | none => do
          let made := if dotted then Origin.onKeyPath else Origin.onHeaderPath
          let inner ← alterAt dotted change made [] path
          return setEntry key (.table made inner) entries
      | some (.table found inner) =>
          if found == .braces || (dotted && found == .header) then none
          else do
            let inner ← alterAt dotted change found inner path
            return setEntry key (.table found inner) entries
      | some (.tables all) => do
          let last ← all.getLast?
          let inner ← alterAt dotted change .header last path
          return setEntry key (.tables (all.dropLast ++ [inner])) entries
      | some _ => none

/-- Adds a key that is not there yet. -/
def addNew (key : String) (v : Value) (entries : Entries) : Option Entries :=
  if (entries.lookup key).isSome then none else some (entries ++ [(key, v)])

/-- Adds a key and its value to a table.  The keys before the last one are a path
from the table on, and the table at its end has to be one that dotted keys made. -/
def addKey (origin : Origin) (path : List String) (v : Value) (entries : Entries) :
    Option Entries := do
  let key ← path.getLast?
  let way := path.dropLast
  alterAt true
    (fun origin inner =>
      if (origin == .onKeyPath) == way.isEmpty then none else addNew key v inner)
    origin entries way

/-- Opens a table by a header. -/
def openTable (path : List String) (root : Entries) : Option Entries := do
  let key ← path.getLast?
  alterAt false
    (fun _ inner => match inner.lookup key with
      | none => some (inner ++ [(key, .table .header [])])
      | some (.table .onHeaderPath entries) => some (setEntry key (.table .header entries) inner)
      | some _ => none)
    .header root path.dropLast

/-- Opens one more table of a list of tables by a header. -/
def openTables (path : List String) (root : Entries) : Option Entries := do
  let key ← path.getLast?
  alterAt false
    (fun _ inner => match inner.lookup key with
      | none => some (inner ++ [(key, .tables [[]])])
      | some (.tables all) => some (setEntry key (.tables (all ++ [[]])) inner)
      | some _ => none)
    .header root path.dropLast

/-- Adds a key and its value to the table that a header has opened. -/
def addBelow (header path : List String) (v : Value) (root : Entries) : Option Entries :=
  alterAt false (fun origin entries => addKey origin path v entries) .header root header

end Toml
end ResourceStubs
