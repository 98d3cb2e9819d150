import ResourceStubs.Binding.Basic
import ResourceStubs.Binding.ClassInfo
import ResourceStubs.File.Access

/-!
# Types of layouts

A store knows the binding class of layouts by their names.  The module's own
layouts have their classes in the module's package; a layout takes part if one of
its files has the marker of data binding.  The layouts of dependencies have the
classes that the dependencies publish.  In both stores the first class that a
layout is given stays.
-/

namespace ResourceStubs

/-- The types of layouts by name, in the order in which they came. -/
structure TypeStore where
  types : List (String × JavaType)
  deriving DecidableEq, Repr

namespace TypeStore

/-- The store that knows no layout. -/
def empty : TypeStore := ⟨[]⟩

/-- The type of a layout. -/
def get? (s : TypeStore) (layout : String) : Option JavaType :=
  s.types.lookup layout

/-- Gives a layout its type, unless it has one. -/
def insert (s : TypeStore) (layout : String) (type : JavaType) : TypeStore :=
  if (s.get? layout).isSome then s else ⟨s.types ++ [(layout, type)]⟩

/-- The number of layouts. -/
def size (s : TypeStore) : Nat := s.types.length

/-- Does the store know no layout? -/
def isEmpty (s : TypeStore) : Bool := s.types.isEmpty

theorem lookup_append (l m : List (String × JavaType)) (name : String) :
    (l ++ m).lookup name = ((l.lookup name).or (m.lookup name)) := by
  induction l with
  | nil => simp
  | cons x l ih =>
    obtain ⟨key, t⟩ := x
    simp only [List.cons_append, List.lookup_cons]
    cases name == key <;> simp [ih]

/-- The first type of a layout stays. -/
theorem get?_insert (s : TypeStore) (layout name : String) (type : JavaType) :
    (s.insert layout type).get? name =
      (s.get? name).or (if name = layout then some type else none) := by
  unfold insert
  by_cases hs : (s.get? layout).isSome
  · rw [if_pos hs]
    by_cases h : name = layout
    · subst h
      obtain ⟨t, ht⟩ := Option.isSome_iff_exists.1 hs
      simp [ht]
    · simp [h]
  · rw [if_neg hs]
    simp only [get?, lookup_append, List.lookup_cons, List.lookup_nil]
    by_cases h : name = layout
    · simp [h]
    · have h' : (name == layout) = false := by simpa using h
      simp [h, h']

/-- What marks a layout as one that takes part in data binding. -/
def marker : String := "<layout"

/-- Does the text have the marker? -/
def isMarked (contents : String) : Bool :=
  Text.occursIn marker.toList contents.toList

/-- Adds the layout of a file, if the file is marked. -/
def addFile (package : String) (tree : Tree) (s : TypeStore) (file : Path) :
    Except Failure TypeStore := do
  let contents ← tree.read file
  let layout := LayoutData.layoutOfFile file
  return if isMarked contents then s.insert layout (LayoutData.localClass package layout) else s

/-- The types of the module's own layouts. -/
def ofFiles (package : String) (tree : Tree) (files : List Path) : Except Failure TypeStore :=
  files.foldlM (addFile package tree) empty

/-- Adds the layouts of one dependency. -/
def addClassInfo (tree : Tree) (s : TypeStore) (file : Path) : Except Failure TypeStore := do
  let contents ← tree.read file
  match ClassInfo.read? contents with
  | none => throw (.invalidClassInfo file)
  | some mappings =>
      return mappings.foldl (fun s (layout, qualified) => s.insert layout (.named qualified)) s

/-- The types of the layouts of dependencies. -/
def ofClassInfos (tree : Tree) (files : List Path) : Except Failure TypeStore :=
  files.foldlM (addClassInfo tree) empty

end TypeStore

/-- The stores in which an included layout is looked up. -/
structure LayoutTypes where
  own : TypeStore
  dependencies : TypeStore

/-- The type of an included layout.  A layout of the module hides one of the same
name in a dependency. -/
def LayoutTypes.get? (types : LayoutTypes) (layout : String) : Option JavaType :=
  (types.own.get? layout).or (types.dependencies.get? layout)

end ResourceStubs
