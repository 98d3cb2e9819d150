import ResourceStubs.Markup.Event

/-!
# Declarations of a values file

A values file is read as events.  An element without a name says nothing, but
what is inside it is read on.  A named `declare-styleable` takes all named
elements inside it as its children, at any depth, up to its own end tag; every
other named element is a declaration by itself, and what is inside it is read on.

A child says whether it is nested, that is, not a direct child of the group.  In
the name of a child a colon becomes an underscore, for the name is going to be
part of a field name.
-/

namespace ResourceStubs

open Markup

/-- An element inside a `declare-styleable`. -/
structure StyleableChild where
  tag : String
  name : String
  nested : Bool
  deriving DecidableEq, Repr

/-- What a values file declares. -/
inductive Declaration where
  | element (tag name : String) (type : Option String)
  | styleable (name : String) (children : List StyleableChild)
  deriving DecidableEq, Repr

namespace Declaration

/-- The tag of a group of attributes. -/
def groupTag : String := "declare-styleable"

/-- The child that a tag at a depth inside a group stands for, if it has a
name. -/
def child? (depth : Nat) (tag : Tag) : Option StyleableChild :=
  (tag.attributes.get? "name").map fun name =>
    ⟨tag.name, String.ofList (name.toList.map fun c => if c = ':' then '_' else c), 0 < depth⟩

/-- The child in front of the others, if there is one. -/
def consChild (child : Option StyleableChild) :
    List StyleableChild × List Event → List StyleableChild × List Event
  | (children, rest) => (child.toList ++ children, rest)

/-- The children of a group, and what follows its end tag, where `depth` elements
are open inside the group. -/
def children? (depth : Nat) : List Event → Option (List StyleableChild × List Event)
  | [] => some ([], [])
  | .opening tag :: rest => (children? (depth + 1) rest).map (consChild (child? depth tag))
  | .standalone tag :: rest => (children? depth rest).map (consChild (child? depth tag))
  | .closing :: rest =>
      match depth with
      | 0 => some ([], rest)
      | depth + 1 => children? depth rest
  | .other :: rest => children? depth rest
  | .malformed :: _ => none

theorem length_children?_le {depth : Nat} {events rest : List Event}
    {children : List StyleableChild} (h : children? depth events = some (children, rest)) :
    rest.length ≤ events.length := by
  induction events generalizing depth children with
  | nil => simp_all [children?]
  | cons e events ih =>
    cases e with
    | opening tag | standalone tag =>
      obtain ⟨⟨cs, r⟩, hcs, heq⟩ := Option.map_eq_some_iff.1 h
      simp only [consChild, Prod.mk.injEq] at heq
      obtain ⟨_, rfl⟩ := heq
      have := ih hcs
      simp only [List.length_cons]
      omega
    | closing =>
      cases depth with
      | zero => simp_all [children?]
      | succ depth =>
        have := ih h
        simp only [List.length_cons]
        omega
    | other =>
      have := ih h
      simp only [List.length_cons]
      omega
    | malformed => simp [children?] at h

/-- The declaration of a named tag with nothing inside it. -/
def ofTag (tag : Tag) (name : String) : Declaration :=
  if tag.name = groupTag then .styleable name []
  else .element tag.name name (tag.attributes.get? "type")

/-- The declarations that events make, unless the document is broken. -/
def ofEvents? : List Event → Option (List Declaration)
  | [] => some []
  | .opening tag :: rest =>
      match tag.attributes.get? "name" with
      | none => ofEvents? rest
      | some name =>
          if tag.name = groupTag then
            match _h : children? 0 rest with
            | none => none
            | some (children, after) => (ofEvents? after).map (.styleable name children :: ·)
          else (ofEvents? rest).map (ofTag tag name :: ·)
  | .standalone tag :: rest =>
      match tag.attributes.get? "name" with
      | none => ofEvents? rest
      | some name => (ofEvents? rest).map (ofTag tag name :: ·)
  | .closing :: rest => ofEvents? rest
  | .other :: rest => ofEvents? rest
  | .malformed :: _ => none
termination_by events => events.length
decreasing_by
  all_goals try simp
  have := length_children?_le _h
  omega

/-- The declarations of a values file, unless it is broken. -/
def readAll? (document : String) : Option (List Declaration) :=
  ofEvents? (Markup.read document)

end Declaration
end ResourceStubs
