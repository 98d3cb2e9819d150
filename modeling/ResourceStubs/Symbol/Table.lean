import ResourceStubs.Symbol.Contribution
import ResourceStubs.Symbol.Line

/-!
# The symbol table

A table holds the symbols of a module in one bucket for each kind, and beside them
the members of every group of attributes.  Buckets stand in the order of their
kinds, symbols in the order of their names, and groups in the order of theirs;
members keep the order in which they were met.  A bucket is there only if it has
a symbol in it.

A symbol that is in the table stays as it is: adding another with the same kind
and name changes nothing.  Members are only ever added, at the end.  So to merge
two tables is to add to the first whatever the second has beyond it.

The array of a group is written with the number of members that the group had at
that time.  `resize` brings all arrays up to date once everything has been merged.
-/

namespace ResourceStubs

/-- The symbols of a module, and the members of its groups. -/
structure SymbolTable where
  buckets : List (ResourceKind × List SymbolEntry)
  groups : List (String × List String)
  deriving DecidableEq, Repr

/-- In a list that ascends by its keys, changes what is at a key, or puts the key
where it belongs. -/
def alterAscending [Ord α] (key : α) (change : Option β → β) : List (α × β) → List (α × β)
  | [] => [(key, change none)]
  | (k, v) :: rest =>
      match compare key k with
      | .lt => (key, change none) :: (k, v) :: rest
      | .eq => (k, change (some v)) :: rest
      | .gt => (k, v) :: alterAscending key change rest

/-- Puts a symbol where its name belongs, unless the name is there. -/
def insertAscending (e : SymbolEntry) : List SymbolEntry → List SymbolEntry
  | [] => [e]
  | x :: rest =>
      match compare e.name x.name with
      | .lt => e :: x :: rest
      | .eq => x :: rest
      | .gt => x :: insertAscending e rest

namespace SymbolTable

/-- The table without symbols. -/
def empty : SymbolTable := ⟨[], []⟩

/-- The symbols of a kind, in the order of their names. -/
def entries (t : SymbolTable) (kind : ResourceKind) : List SymbolEntry :=
  (t.buckets.lookup kind).getD []

/-- The symbol with a kind and a name. -/
def get? (t : SymbolTable) (kind : ResourceKind) (name : String) : Option SymbolEntry :=
  (t.entries kind).find? fun e => e.name == name

/-- Is there a symbol with this kind and name? -/
def contains (t : SymbolTable) (kind : ResourceKind) (name : String) : Bool :=
  (t.get? kind name).isSome

/-- All symbols, by kind and then by name. -/
def toList (t : SymbolTable) : List SymbolEntry :=
  t.buckets.flatMap Prod.snd

/-- The number of symbols. -/
def size (t : SymbolTable) : Nat :=
  t.toList.length

/-- Has the table no symbol? -/
def isEmpty (t : SymbolTable) : Bool :=
  t.size == 0

/-- The members of a group, if the group is known. -/
def members? (t : SymbolTable) (group : String) : Option (List String) :=
  t.groups.lookup group

/-- Adds a symbol, unless one with its kind and name is there. -/
def insert (t : SymbolTable) (e : SymbolEntry) : SymbolTable :=
  { t with buckets := alterAscending e.kind (fun bucket => insertAscending e (bucket.getD [])) t.buckets }

/-- Adds the members that a group does not have yet, at its end. -/
def addMembers (t : SymbolTable) (group : String) (members : List String) : SymbolTable :=
  { t with
    groups := alterAscending group (fun known => members.foldl Contribution.pushNew (known.getD []))
      t.groups }

/-- Adds what a declaration contributes. -/
def contribute (t : SymbolTable) (c : Contribution) : SymbolTable :=
  match c.group with
  | some group => (t.addMembers group.name group.members).insert c.entry
  | none => t.insert c.entry

/-- Adds the symbol of a line. -/
def addLine (t : SymbolTable) (line : String) : Except Failure SymbolTable := do
  match ← SymbolLine.read line with
  | some e => return t.insert e
  | none => return t

/-- Adds everything that another table has beyond this one. -/
def merge (t other : SymbolTable) : SymbolTable :=
  other.groups.foldl (fun t (group, members) => t.addMembers group members)
    (other.toList.foldl insert t)

/-- The array of a group, with a place for each of its members. -/
def resizeEntry (groups : List (String × List String)) (e : SymbolEntry) : SymbolEntry :=
  match groups.lookup e.name with
  | some members => .array .styleable e.name (placeholderArray members.length)
  | none => e

/-- Gives the array of every group a place for each of its members. -/
def resize (t : SymbolTable) : SymbolTable :=
  { t with
    buckets := t.buckets.map fun (kind, bucket) =>
      (kind, if kind = .styleable then bucket.map (resizeEntry t.groups) else bucket) }

/-- Do two tables have the same kinds and names, and the same members in the same
order?  Values do not count. -/
def sameKeys (t other : SymbolTable) : Bool :=
  t.buckets.map (fun (kind, bucket) => (kind, bucket.map SymbolEntry.name)) ==
      other.buckets.map (fun (kind, bucket) => (kind, bucket.map SymbolEntry.name)) &&
    t.groups == other.groups

end SymbolTable
end ResourceStubs
