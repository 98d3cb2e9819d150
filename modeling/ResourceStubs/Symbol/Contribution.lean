import ResourceStubs.Failure
import ResourceStubs.Symbol.Entry

/-!
# What a declaration contributes

A declaration names one symbol, or a group with its members.  The shape of its
tag says what it contributes: always one symbol, and for a group the members as
well.  A `Registry` gives the reader for each shape.  The standard one knows
every shape; a shape without a reader is a failure.
-/

namespace ResourceStubs

/-- A name with the kind of its tag, or a group with the names in it. -/
inductive DeclaredEntry where
  | single (name : String) (kind : ResourceKind)
  | group (name : String) (children : List String)
  deriving DecidableEq, Repr

/-- The name that is declared. -/
def DeclaredEntry.name : DeclaredEntry → String
  | single name _ => name
  | group name _ => name

/-- A group of attributes, and the names of its members in order. -/
structure StyleableGroup where
  name : String
  members : List String
  deriving DecidableEq, Repr

/-- What a declaration adds to the symbols. -/
structure Contribution where
  entry : SymbolEntry
  group : Option StyleableGroup
  deriving DecidableEq, Repr

namespace Contribution

/-- A symbol and no group. -/
def ofEntry (entry : SymbolEntry) : Contribution :=
  ⟨entry, none⟩

/-- Adds a name that is not in the list yet, at the end. -/
def pushNew (names : List String) (name : String) : List String :=
  if name ∈ names then names else names ++ [name]

/-- The names without repetitions, each where it comes first. -/
def distinct (names : List String) : List String :=
  names.foldl pushNew []

/-- A symbol of the kind of the tag; a group counts as a styleable. -/
def plain : DeclaredEntry → Contribution
  | .single name kind => ofEntry (.scalar kind name)
  | .group name _ => ofEntry (.scalar .styleable name)

/-- An array of unknown size. -/
def array (d : DeclaredEntry) : Contribution :=
  ofEntry (.array .array d.name placeholder)

/-- A style. -/
def style (d : DeclaredEntry) : Contribution :=
  ofEntry (.scalar .style d.name)

/-- An id. -/
def id (d : DeclaredEntry) : Contribution :=
  ofEntry (.scalar .id d.name)

/-- An array with a place for each member of the group. -/
def styleable (d : DeclaredEntry) : Contribution :=
  let members := match d with
    | .group _ children => distinct children
    | .single _ _ => []
  ⟨.array .styleable d.name (placeholderArray members.length), some ⟨d.name, members⟩⟩

/-- What a declaration of a shape contributes. -/
def ofShape : EntryShape → DeclaredEntry → Contribution
  | .plain => plain
  | .array => array
  | .style => style
  | .id => id
  | .styleable => styleable

end Contribution

/-- The readers of declarations, by shape. -/
structure Registry where
  reader? : EntryShape → Option (DeclaredEntry → Contribution)

namespace Registry

/-- A reader for every shape. -/
def standard : Registry :=
  ⟨fun shape => some (Contribution.ofShape shape)⟩

/-- No reader at all. -/
def empty : Registry :=
  ⟨fun _ => none⟩

/-- What a declaration contributes, by the reader for its shape. -/
def read (registry : Registry) (shape : EntryShape) (d : DeclaredEntry) :
    Except Failure Contribution :=
  match registry.reader? shape with
  | some reader => .ok (reader d)
  | none => .error (.missingReader shape)

@[simp] theorem read_standard (shape : EntryShape) (d : DeclaredEntry) :
    standard.read shape d = .ok (Contribution.ofShape shape d) := rfl

end Registry
end ResourceStubs
