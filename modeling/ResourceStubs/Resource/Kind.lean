import ResourceStubs.Text.LetterCase
import ResourceStubs.Text.Search

/-!
# Resource kinds

A resource is of one of twenty-four kinds, and the class `R` has a nested class
for each.  The name of a kind is what nested classes, symbol lines and resource
directories use; letter case does not matter where a name is read.  Kinds are
ordered by their names.

A resource directory is named for a kind, and a dash may follow with qualifiers
behind it: `drawable-hdpi` holds drawables.
-/

namespace ResourceStubs

/-- The kinds of resources. -/
inductive ResourceKind where
  | anim | animator | array | attr | bool | color | dimen | drawable | font | fraction
  | id | integer | interpolator | layout | menu | mipmap | navigation | plurals | raw
  | string | style | styleable | transition | xml
  deriving DecidableEq, Repr

namespace ResourceKind

/-- Every kind once, in order. -/
def all : List ResourceKind :=
  [anim, animator, array, attr, bool, color, dimen, drawable, font, fraction, id, integer,
   interpolator, layout, menu, mipmap, navigation, plurals, raw, string, style, styleable,
   transition, xml]

/-- The name of the kind. -/
def name : ResourceKind → String
  | anim => "anim"
  | animator => "animator"
  | array => "array"
  | attr => "attr"
  | bool => "bool"
  | color => "color"
  | dimen => "dimen"
  | drawable => "drawable"
  | font => "font"
  | fraction => "fraction"
  | id => "id"
  | integer => "integer"
  | interpolator => "interpolator"
  | layout => "layout"
  | menu => "menu"
  | mipmap => "mipmap"
  | navigation => "navigation"
  | plurals => "plurals"
  | raw => "raw"
  | string => "string"
  | style => "style"
  | styleable => "styleable"
  | transition => "transition"
  | xml => "xml"

theorem mem_all (k : ResourceKind) : k ∈ all := by
  cases k <;> decide

/-- Kinds are ordered by their names. -/
instance : Ord ResourceKind := ⟨compareOn name⟩

/-- The kind with a name, in any letter case. -/
def ofName? (text : String) : Option ResourceKind :=
  all.find? fun k => Text.sameIgnoringCase k.name text

/-- The name of a kind is read back as that kind. -/
theorem ofName?_name (k : ResourceKind) : ofName? k.name = some k := by
  cases k <;> decide

/-- A text names a kind if it is the name in any letter case. -/
theorem ofName?_eq_some_iff {text : String} {k : ResourceKind} :
    ofName? text = some k ↔ Text.sameIgnoringCase k.name text = true := by
  constructor
  · intro h
    rw [ofName?] at h
    exact List.find?_some (p := fun l : ResourceKind => Text.sameIgnoringCase l.name text) h
  · intro h
    have hsame : (fun l : ResourceKind => Text.sameIgnoringCase l.name text) =
        fun l => Text.sameIgnoringCase l.name k.name := by
      funext l
      rw [Text.sameIgnoringCase, Text.sameIgnoringCase, ← eq_of_beq h]
    rw [← ofName?_name k, ofName?, ofName?, hsame]

/-- Different kinds have different names. -/
theorem name_injective {k l : ResourceKind} (h : k.name = l.name) : k = l := by
  have := ofName?_name l
  rw [← h, ofName?_name k] at this
  exact Option.some.inj this

/-- The part of a directory name that names a kind: what stands before the first
dash. -/
def directoryBase (directory : String) : String :=
  String.ofList (Text.beforeFirst ['-'] directory.toList)

/-- The kind of the resources in a directory. -/
def ofDirectoryName? (directory : String) : Option ResourceKind :=
  ofName? (directoryBase directory)

end ResourceKind
end ResourceStubs
