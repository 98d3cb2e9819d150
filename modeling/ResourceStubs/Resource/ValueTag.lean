import ResourceStubs.Resource.Kind

/-!
# Tags of a values file

An element of a values file declares a resource of a kind that follows from its
tag.  Nine tags are known by their exact spelling; any other tag is looked up
among the kinds, where letter case does not matter.  An `item` declares nothing
by itself: its `type` attribute says which tag it stands for.

The shape of a tag says what its declaration adds to the symbols; `Contribution.ofShape`
has what each shape does.
-/

namespace ResourceStubs

/-- The tags that may declare a resource. -/
inductive ValueTag where
  | item
  | style
  | array
  | stringArray
  | integerArray
  | attr
  | enum
  | flag
  | declareStyleable
  | simple (kind : ResourceKind)
  deriving DecidableEq, Repr

/-- What a declaration looks like: one symbol of the kind of its tag, an array, a
style, an id, or a group of attributes. -/
inductive EntryShape where
  | plain
  | array
  | style
  | id
  | styleable
  deriving DecidableEq, Repr

/-- The shape by name. -/
def EntryShape.name : EntryShape → String
  | .plain => "Default"
  | .array => "Array"
  | .style => "Style"
  | .id => "Id"
  | .styleable => "Styleable"

namespace ValueTag

/-- The tag with a name. -/
def ofName? (text : String) : Option ValueTag :=
  match text with
  | "item" => some item
  | "style" => some style
  | "array" => some array
  | "string-array" => some stringArray
  | "integer-array" => some integerArray
  | "attr" => some attr
  | "enum" => some enum
  | "flag" => some flag
  | "declare-styleable" => some declareStyleable
  | other => (ResourceKind.ofName? other).map simple

/-- The kind of what the tag declares.  An item without a type declares
nothing. -/
def kind? : ValueTag → Option ResourceKind
  | item => none
  | style => some .style
  | array | stringArray | integerArray => some .array
  | attr => some .attr
  | enum | flag => some .id
  | declareStyleable => some .styleable
  | simple kind => some kind

/-- The tag that an item with a type stands for.  A type that is no tag leaves
the item as it is, and other tags do not look at their type. -/
def retyped (tag : ValueTag) (type : Option String) : ValueTag :=
  match tag, type with
  | item, some text => (ofName? text).getD item
  | tag, _ => tag

/-- The shape of what the tag declares. -/
def shape : ValueTag → EntryShape
  | style => .style
  | array | stringArray | integerArray => .array
  | enum | flag => .id
  | declareStyleable => .styleable
  | item | attr | simple _ => .plain

end ValueTag
end ResourceStubs
