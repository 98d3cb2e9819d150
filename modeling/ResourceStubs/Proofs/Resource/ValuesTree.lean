import ResourceStubs.Resource.Declaration

/-!
# A values file as a tree

A values file is read as events, with a count of the elements that are open inside a group.
Here the file is a tree of elements, and what it declares is found by a walk through the tree,
parents before their children (`walk`): an element without a name declares nothing, a group
declares all that is named inside it, and every other element declares itself.  Only a group
keeps the walk from what is inside it.

* `children?_eventsOfAll`: while elements of a group are read, the count comes back to where it
  was behind each of them, whatever is inside it.  So the children of a group end at the end
  tag of the group (`children?_closing`).
* `ofEvents?_eventsOfAll`: the events of a tree declare what the walk finds, and reading goes
  on behind them.
* `readAll?_eq_walk`: the same for a document.
-/

namespace ResourceStubs

namespace Markup

/-! ## Trees -/

/-- A part of a document: an element with what is inside it, an element that closes itself, or
anything else, such as text or a comment. -/
inductive Node where
  | element (tag : Tag) (children : List Node)
  | standalone (tag : Tag)
  | other

namespace Node

mutual

/-- What a reader meets from the start of the part to its end. -/
def events : Node → List Event
  | element tag children => .opening tag :: (eventsOfAll children ++ [.closing])
  | standalone tag => [.standalone tag]
  | other => [.other]

/-- What a reader meets in parts that follow each other. -/
def eventsOfAll : List Node → List Event
  | [] => []
  | node :: rest => node.events ++ eventsOfAll rest

end

mutual

/-- The tags of the elements, a parent before its children. -/
def tags : Node → List Tag
  | element tag children => tag :: tagsOfAll children
  | standalone tag => [tag]
  | other => []

/-- The tags in parts that follow each other. -/
def tagsOfAll : List Node → List Tag
  | [] => []
  | node :: rest => node.tags ++ tagsOfAll rest

end

/-- The tag of the element itself. -/
def tag? : Node → Option Tag
  | element tag _ => some tag
  | standalone tag => some tag
  | other => none

/-- The tags of the elements inside it, at any depth. -/
def inner : Node → List Tag
  | element _ children => tagsOfAll children
  | standalone _ => []
  | other => []

theorem events_element_append (tag : Tag) (children : List Node) (rest : List Event) :
    (element tag children).events ++ rest =
      .opening tag :: (eventsOfAll children ++ .closing :: rest) := by
  rw [events, List.cons_append, List.append_assoc]
  rfl

theorem eventsOfAll_cons_append (node : Node) (nodes : List Node) (rest : List Event) :
    eventsOfAll (node :: nodes) ++ rest = node.events ++ (eventsOfAll nodes ++ rest) := by
  rw [eventsOfAll, List.append_assoc]

end Node
end Markup

namespace Declaration

open Markup Markup.Node

/-! ## The walk -/

/-- What a named tag inside a group stands for. -/
def member? (nested : Bool) (tag : Tag) : Option StyleableChild :=
  (tag.attributes.get? "name").map fun name =>
    ⟨tag.name, String.ofList (name.toList.map fun c => if c = ':' then '_' else c), nested⟩

/-- All that is named inside a group, a parent before its children.  Whoever is not a direct
child is nested. -/
def members (children : List Node) : List StyleableChild :=
  children.flatMap fun child =>
    (child.tag?.bind (member? false)).toList ++ child.inner.filterMap (member? true)

mutual

/-- The declarations of a part of a document. -/
def walk : Node → List Declaration
  | .element tag children =>
      match tag.attributes.get? "name" with
      | none => walkAll children
      | some name =>
          if tag.name = groupTag then [.styleable name (members children)]
          else .element tag.name name (tag.attributes.get? "type") :: walkAll children
  | .standalone tag =>
      match tag.attributes.get? "name" with
      | none => []
      | some name =>
          if tag.name = groupTag then [.styleable name []]
          else [.element tag.name name (tag.attributes.get? "type")]
  | .other => []

/-- The declarations of parts that follow each other. -/
def walkAll : List Node → List Declaration
  | [] => []
  | node :: rest => walk node ++ walkAll rest

end

/-! ## Inside a group -/

variable {tag : Tag} {name : String} {depth : Nat} {rest after : List Event}
  {children : List StyleableChild}

/-- More children in front of those that were found. -/
def prepend (more : List StyleableChild) (found : List StyleableChild × List Event) :
    List StyleableChild × List Event :=
  (more ++ found.1, found.2)

theorem prepend_comp_prepend (more others : List StyleableChild) :
    prepend more ∘ prepend others = prepend (more ++ others) := by
  funext found
  exact congrArg (·, found.2) (List.append_assoc more others found.1).symm

theorem consChild_eq (child : Option StyleableChild) :
    consChild child = prepend child.toList := rfl

/-- What an element adds to the children of a group, when `depth` elements are open in it. -/
def membersAt (depth : Nat) (node : Node) : List StyleableChild :=
  (node.tag?.bind (member? (0 < depth))).toList ++ node.inner.filterMap (member? true)

/-- Inside an element of the group, all are nested. -/
theorem membersAt_succ (depth : Nat) (node : Node) :
    membersAt (depth + 1) node = node.tags.filterMap (member? true) := by
  have hnested : decide (0 < depth + 1) = true := decide_eq_true (Nat.succ_pos depth)
  rw [membersAt, hnested]
  cases node with
  | element tag children =>
      rw [tags, List.filterMap_cons]
      show (member? true tag).toList ++ (tagsOfAll children).filterMap (member? true) = _
      cases member? true tag <;> rfl
  | standalone tag =>
      rw [tags, List.filterMap_cons]
      show (member? true tag).toList ++ [] = _
      cases member? true tag <;> rfl
  | other => rfl

mutual

/-- **Behind an element the count is where it was**, and its tags have become children. -/
theorem children?_events (depth : Nat) (rest : List Event) : ∀ node : Node,
    children? depth (node.events ++ rest) =
      (children? depth rest).map (prepend (membersAt depth node))
  | .element tag children => by
      have hinner := children?_eventsOfAll depth (.closing :: rest) children
      rw [events_element_append, children?, hinner, Option.map_map, consChild_eq,
        prepend_comp_prepend]
      rfl
  | .standalone tag => by
      have hmembers : membersAt depth (.standalone tag) = (child? depth tag).toList :=
        List.append_nil _
      rw [hmembers, ← consChild_eq]
      rfl
  | .other => (congrFun Option.map_id _).symm

/-- Elements inside an element of a group are all nested. -/
theorem children?_eventsOfAll (depth : Nat) (rest : List Event) : ∀ nodes : List Node,
    children? (depth + 1) (eventsOfAll nodes ++ rest) =
      (children? (depth + 1) rest).map (prepend ((tagsOfAll nodes).filterMap (member? true)))
  | [] => (congrFun Option.map_id _).symm
  | node :: nodes => by
      rw [eventsOfAll_cons_append, children?_events (depth + 1) _ node,
        children?_eventsOfAll depth rest nodes, Option.map_map, prepend_comp_prepend, tagsOfAll,
        List.filterMap_append, membersAt_succ]

end

/-- The elements directly inside a group are not nested. -/
theorem children?_members (rest : List Event) (nodes : List Node) :
    children? 0 (eventsOfAll nodes ++ rest) =
      (children? 0 rest).map (prepend (members nodes)) := by
  induction nodes with
  | nil => exact (congrFun Option.map_id _).symm
  | cons node nodes ih =>
      rw [eventsOfAll_cons_append, children?_events, ih, Option.map_map, prepend_comp_prepend]
      rfl

/-- **The children of a group end at its own end tag.**  What follows is left to be read. -/
theorem children?_closing (nodes : List Node) (rest : List Event) :
    children? 0 (eventsOfAll nodes ++ .closing :: rest) = some (members nodes, rest) := by
  rw [children?_members]
  show some (members nodes ++ [], rest) = _
  rw [List.append_nil]

/-! ## The whole file -/

/-- A group takes what is inside it, and reading goes on behind it. -/
theorem ofEvents?_group (hname : tag.attributes.get? "name" = some name)
    (htag : tag.name = groupTag) (h : children? 0 rest = some (children, after)) :
    ofEvents? (.opening tag :: rest) = (ofEvents? after).map (.styleable name children :: ·) := by
  rw [ofEvents?, hname]
  dsimp only
  rw [if_pos htag]
  split
  · rename_i hnone
    rw [hnone] at h
    exact absurd h (by simp)
  · rename_i hsome
    rw [hsome, Option.some.injEq, Prod.mk.injEq] at h
    rw [h.1, h.2]

/-- Any other named element declares itself, and reading goes on inside it. -/
theorem ofEvents?_opening (hname : tag.attributes.get? "name" = some name)
    (htag : tag.name ≠ groupTag) :
    ofEvents? (.opening tag :: rest) = (ofEvents? rest).map (ofTag tag name :: ·) := by
  rw [ofEvents?, hname]
  exact if_neg htag

theorem ofEvents?_opening_of_unnamed (hname : tag.attributes.get? "name" = none) :
    ofEvents? (.opening tag :: rest) = ofEvents? rest := by
  rw [ofEvents?, hname]

theorem ofEvents?_standalone (hname : tag.attributes.get? "name" = some name) :
    ofEvents? (.standalone tag :: rest) = (ofEvents? rest).map (ofTag tag name :: ·) := by
  rw [ofEvents?, hname]

theorem ofEvents?_standalone_of_unnamed (hname : tag.attributes.get? "name" = none) :
    ofEvents? (.standalone tag :: rest) = ofEvents? rest := by
  rw [ofEvents?, hname]

theorem ofEvents?_closing : ofEvents? (.closing :: rest) = ofEvents? rest := by
  rw [ofEvents?]

theorem map_append_comp (more others : List Declaration) :
    (more ++ · : List Declaration → List Declaration) ∘ (others ++ ·) = (more ++ others ++ ·) := by
  funext l
  exact (List.append_assoc more others l).symm

mutual

/-- **A part of the document declares what the walk finds in it**, and reading goes on behind
it. -/
theorem ofEvents?_events (rest : List Event) : ∀ node : Node,
    ofEvents? (node.events ++ rest) = (ofEvents? rest).map (walk node ++ ·)
  | .element tag children => by
      have hinner : ofEvents? (eventsOfAll children ++ .closing :: rest) =
          (ofEvents? rest).map (walkAll children ++ ·) := by
        rw [ofEvents?_eventsOfAll (.closing :: rest) children, ofEvents?_closing]
      rw [events_element_append, walk]
      cases hname : tag.attributes.get? "name" with
      | none => rw [ofEvents?_opening_of_unnamed hname, hinner]
      | some name =>
          by_cases htag : tag.name = groupTag
          · rw [ofEvents?_group hname htag (children?_closing children rest)]
            dsimp only
            rw [if_pos htag]
            rfl
          · rw [ofEvents?_opening hname htag, hinner, Option.map_map, ofTag]
            dsimp only
            rw [if_neg htag, if_neg htag]
            rfl
  | .standalone tag => by
      show ofEvents? (.standalone tag :: rest) = _
      rw [walk]
      cases hname : tag.attributes.get? "name" with
      | none =>
          rw [ofEvents?_standalone_of_unnamed hname]
          exact (congrFun Option.map_id _).symm
      | some name =>
          rw [ofEvents?_standalone hname, ofTag]
          dsimp only
          split <;> rfl
  | .other => by
      show ofEvents? (.other :: rest) = _
      rw [ofEvents?, walk]
      exact (congrFun Option.map_id _).symm

/-- Parts that follow each other declare what is found in each of them. -/
theorem ofEvents?_eventsOfAll (rest : List Event) : ∀ nodes : List Node,
    ofEvents? (eventsOfAll nodes ++ rest) = (ofEvents? rest).map (walkAll nodes ++ ·)
  | [] => (congrFun Option.map_id _).symm
  | node :: nodes => by
      rw [eventsOfAll_cons_append, ofEvents?_events _ node, ofEvents?_eventsOfAll rest nodes,
        Option.map_map, map_append_comp, walkAll]

end

/-- **Reading a values file is walking its tree.**  In particular the children of a group end
at its own end tag, and what follows is read as if the group were not there. -/
theorem readAll?_eq_walk (forest : List Node) :
    ofEvents? (eventsOfAll forest) = some (walkAll forest) ∧
    (∀ document, Markup.read document = eventsOfAll forest →
      readAll? document = some (walkAll forest)) ∧
    ∀ nodes rest, children? 0 (eventsOfAll nodes ++ .closing :: rest) =
      some (members nodes, rest) := by
  have hevents : ofEvents? (eventsOfAll forest) = some (walkAll forest) := by
    rw [← List.append_nil (eventsOfAll forest), ofEvents?_eventsOfAll, ofEvents?]
    exact congrArg some (List.append_nil _)
  refine ⟨hevents, fun document h => ?_, children?_closing⟩
  rw [readAll?, h, hevents]

/-- A file with a group that has a member inside a member, and behind the group a named element
in one without a name. -/
def groupAndItem : String :=
  "<declare-styleable name='S'><attr name='a:b'><flag name='f'/></attr></declare-styleable>" ++
    "<x>u<item name='t'/></x>"

/-- Its tree. -/
def groupAndItemTree : List Node :=
  [.element ⟨"declare-styleable", ⟨[("name", "S")]⟩⟩
      [.element ⟨"attr", ⟨[("name", "a:b")]⟩⟩ [.standalone ⟨"flag", ⟨[("name", "f")]⟩⟩]],
    .element ⟨"x", ⟨[]⟩⟩ [.other, .standalone ⟨"item", ⟨[("name", "t")]⟩⟩]]

/-- It declares the group with its two members, and the item. -/
theorem readAll?_groupAndItem :
    Markup.read groupAndItem = eventsOfAll groupAndItemTree ∧
    readAll? groupAndItem = some [.styleable "S" [⟨"attr", "a_b", false⟩, ⟨"flag", "f", true⟩],
      .element "item" "t" none] := by
  have hread : Markup.read groupAndItem = eventsOfAll groupAndItemTree := by decide +kernel
  exact ⟨hread, (readAll?_eq_walk groupAndItemTree).2.1 _ hread⟩

end Declaration
end ResourceStubs
