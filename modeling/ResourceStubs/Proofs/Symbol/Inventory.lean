import ResourceStubs.Proofs.Symbol.DependencyLines

/-!
# Exactly what is declared

A table is compared with a list made from the declarations alone, an `Inventory`: the keys
that are declared, the groups, and for each group the names that it is given, in order and
with repetitions.  `Accords` says that a table has these symbols and groups and no others,
and that the members of a group are the names given to it, each where it comes first.

Every operation of the table is one entry more in the inventory (`Accords.insert`,
`Accords.addEntry`, `Accords.merge`), and `Accords.foldl` carries that through a run.  What
a declaration contributes is looked up twice, the kind by its tag and the reader by the
shape of its tag; `kind_ofShape` says that the two agree.
-/

namespace ResourceStubs

/-! ## Inventories -/

/-- What is declared: the keys of symbols, the names of groups, and the names that a group
is given. -/
structure Inventory where
  keys : List (ResourceKind × String)
  groups : List String
  members : String → List String

namespace Inventory

/-- Nothing is declared. -/
def nothing : Inventory :=
  ⟨[], [], fun _ => []⟩

/-- One symbol is declared. -/
def ofKey (kind : ResourceKind) (name : String) : Inventory :=
  ⟨[(kind, name)], [], fun _ => []⟩

/-- What is declared first, and what is declared after it. -/
def append (i j : Inventory) : Inventory :=
  ⟨i.keys ++ j.keys, i.groups ++ j.groups, fun group => i.members group ++ j.members group⟩

/-- What the elements of a list declare, one after the other. -/
def concat {α : Type} (f : α → Inventory) (l : List α) : Inventory :=
  ⟨l.flatMap fun a => (f a).keys, l.flatMap fun a => (f a).groups,
    fun group => l.flatMap fun a => (f a).members group⟩

@[simp] theorem append_nothing (i : Inventory) : i.append nothing = i := by
  simp [append, nothing]

@[simp] theorem nothing_append (i : Inventory) : nothing.append i = i := by
  simp [append, nothing]

theorem append_assoc (i j k : Inventory) : (i.append j).append k = i.append (j.append k) := by
  simp [append]

variable {α β : Type}

@[simp] theorem concat_nil (f : α → Inventory) : concat f [] = nothing := rfl

@[simp] theorem concat_cons (f : α → Inventory) (a : α) (l : List α) :
    concat f (a :: l) = (f a).append (concat f l) := by
  simp [concat, append]

theorem concat_append (f : α → Inventory) (l m : List α) :
    concat f (l ++ m) = (concat f l).append (concat f m) := by
  simp [concat, append]

theorem concat_flatMap (f : α → Inventory) (g : β → List α) (l : List β) :
    concat f (l.flatMap g) = concat (fun b => concat f (g b)) l := by
  induction l with
  | nil => rfl
  | cons b l ih => rw [List.flatMap_cons, concat_append, ih, concat_cons]

theorem concat_map (f : α → Inventory) (g : β → α) (l : List β) :
    concat f (l.map g) = concat (fun b => f (g b)) l := by
  simp [concat, List.flatMap_map]

end Inventory

/-! ## What a declaration declares -/

/-- A direct child of a group is an attribute.  A nested one is of the kind of its own tag,
and an attribute where that has none. -/
def StyleableChild.key (c : StyleableChild) : ResourceKind × String :=
  (if c.nested then ((ValueTag.ofName? c.tag).bind ValueTag.kind?).getD .attr else .attr, c.name)

namespace Declaration

/-- The tag that an element stands for, with its type in view. -/
def tag? (tag : String) (type : Option String) : Option ValueTag :=
  (ValueTag.ofName? tag).map (·.retyped type)

/-- The keys of the symbols that are declared.  An element of an unknown tag declares none,
nor does an item without the type of a kind; a group declares its children and itself. -/
def keys : Declaration → List (ResourceKind × String)
  | .element tag name type => ((tag? tag type).bind ValueTag.kind?).toList.map (·, name)
  | .styleable name children => children.map StyleableChild.key ++ [(.styleable, name)]

/-- The groups that are declared.  The tag of a group makes one also as the type of an item
and as a nested child, but then without members. -/
def groupNames : Declaration → List String
  | .element tag name type => if tag? tag type = some .declareStyleable then [name] else []
  | .styleable name children =>
      (children.filter fun c =>
        c.nested ∧ ValueTag.ofName? c.tag = some .declareStyleable).map StyleableChild.name ++ [name]

/-- The names that a group is given: those of its direct children. -/
def membersOf (group : String) : Declaration → List String
  | .element _ _ _ => []
  | .styleable name children => if name = group then directNames children else []

/-- All that is declared. -/
def inventory (d : Declaration) : Inventory :=
  ⟨d.keys, d.groupNames, fun group => d.membersOf group⟩

end Declaration

/-! ## What a reading contributes -/

section Reading

/-- The names that a reading gives to its group. -/
def DeclaredEntry.children : DeclaredEntry → List String
  | .single _ _ => []
  | .group _ children => children

/-- What one reading declares. -/
def entryInventory (e : EntryShape × DeclaredEntry) : Inventory :=
  let c := Contribution.ofShape e.1 e.2
  ⟨[(c.entry.kind, c.entry.name)], c.group.toList.map StyleableGroup.name,
    fun group => if (c.group.map StyleableGroup.name) = some group then e.2.children else []⟩

theorem name_ofShape (shape : EntryShape) (d : DeclaredEntry) :
    (Contribution.ofShape shape d).entry.name = d.name := by
  cases shape <;> cases d <;> rfl

/-- **The shape of a tag and its kind agree.** -/
theorem kind_ofShape (tag : ValueTag) (name : String) :
    (Contribution.ofShape tag.shape (.single name (tag.kind?.getD .attr))).entry.kind =
      tag.kind?.getD .attr := by
  cases tag <;> rfl

theorem group_ofShape_single (tag : ValueTag) (name : String) (kind : ResourceKind) :
    (Contribution.ofShape tag.shape (.single name kind)).group =
      if tag = .declareStyleable then some ⟨name, []⟩ else none := by
  cases tag <;> rfl

/-- Only a group of declared names has members, and it has them without repetitions. -/
theorem members_of_group {shape : EntryShape} {d : DeclaredEntry} {group : StyleableGroup}
    (h : (Contribution.ofShape shape d).group = some group) :
    group.members = Contribution.distinct d.children := by
  cases shape with
  | styleable =>
      rw [← Option.some.inj h]
      cases d <;> rfl
  | plain | array | style | id => cases d <;> exact absurd h (by simp [Contribution.ofShape,
      Contribution.plain, Contribution.array, Contribution.style, Contribution.id,
      Contribution.ofEntry])

/-- A name with a tag declares a symbol of the kind of the tag, and a group without members
if the tag is that of a group. -/
theorem entryInventory_single (tag : ValueTag) (name : String) :
    entryInventory (tag.shape, .single name (tag.kind?.getD .attr)) =
      ⟨[(tag.kind?.getD .attr, name)], if tag = .declareStyleable then [name] else [],
        fun _ => []⟩ := by
  rw [entryInventory]
  simp only [kind_ofShape, name_ofShape, group_ofShape_single, DeclaredEntry.name,
    DeclaredEntry.children, ite_self]
  split <;> rfl

theorem entryInventory_group (name : String) (names : List String) :
    entryInventory (.styleable, .group name names) =
      ⟨[(.styleable, name)], [name], fun group => if name = group then names else []⟩ := by
  simp [entryInventory, Contribution.ofShape, Contribution.styleable, DeclaredEntry.name,
    DeclaredEntry.children]

theorem entryInventory_child (c : StyleableChild) :
    entryInventory c.entry =
      ⟨[c.key], if c.nested ∧ ValueTag.ofName? c.tag = some .declareStyleable then [c.name] else [],
        fun _ => []⟩ := by
  rw [StyleableChild.entry, StyleableChild.key]
  cases hnested : c.nested with
  | false => exact entryInventory_single .attr c.name
  | true =>
      simp only [if_true, true_and]
      rw [entryInventory_single]
      cases ValueTag.ofName? c.tag with
      | none => rfl
      | some tag => simp

theorem concat_children (children : List StyleableChild) :
    Inventory.concat entryInventory (children.map StyleableChild.entry) =
      ⟨children.map StyleableChild.key,
        (children.filter fun c =>
          c.nested ∧ ValueTag.ofName? c.tag = some .declareStyleable).map StyleableChild.name,
        fun _ => []⟩ := by
  induction children with
  | nil => rfl
  | cons c children ih =>
      rw [List.map_cons, Inventory.concat_cons, ih, entryInventory_child]
      by_cases hc : c.nested ∧ ValueTag.ofName? c.tag = some .declareStyleable
      · rw [if_pos hc, List.filter_cons_of_pos (by simpa using hc)]
        rfl
      · rw [if_neg hc, List.filter_cons_of_neg (by simpa using hc)]
        rfl

/-- **The readings of a declaration declare what it says.** -/
theorem concat_entries (d : Declaration) :
    Inventory.concat entryInventory d.entries = d.inventory := by
  cases d with
  | element tag name type =>
      have hentries : (Declaration.element tag name type).entries =
          (Declaration.tag? tag type).elim [] fun v =>
            v.kind?.toList.map fun kind => (v.shape, .single name kind) := by
        rw [Declaration.entries, Declaration.tag?]
        cases ValueTag.ofName? tag <;> rfl
      rw [hentries]
      simp only [Declaration.inventory, Declaration.keys, Declaration.groupNames,
        Declaration.membersOf]
      cases Declaration.tag? tag type with
      | none => rfl
      | some tag =>
          cases hkind : tag.kind? with
          | none =>
              -- only an item has no kind, and an item is no group
              have hne : tag ≠ .declareStyleable := by
                rintro rfl
                exact absurd hkind (by decide)
              simp [hkind, hne, Inventory.nothing]
          | some kind =>
              have hone := entryInventory_single tag name
              rw [hkind, Option.getD_some] at hone
              simp [hkind, hone]
  | styleable name children =>
      rw [Declaration.entries, Inventory.concat_append, concat_children, Inventory.concat_cons,
        Inventory.concat_nil, Inventory.append_nothing, entryInventory_group]
      rfl

end Reading

/-! ## Tables that accord with an inventory -/

namespace SymbolTable

/-- The table has the symbols with the keys of the inventory and no others, its groups and
no others, and as members of a group the names given to it, each where it comes first. -/
structure Accords (t : SymbolTable) (i : Inventory) : Prop where
  wellFormed : t.WellFormed
  symbols : ∀ kind name, (t.get? kind name).isSome ↔ (kind, name) ∈ i.keys
  groups : ∀ group, (t.members? group).isSome ↔ group ∈ i.groups
  members : ∀ group, (t.members? group).getD [] = Contribution.distinct (i.members group)

variable {t u : SymbolTable} {i j : Inventory}

theorem accords_empty : SymbolTable.empty.Accords .nothing where
  wellFormed := wellFormed_empty
  symbols kind name := by simp [get?, entries, SymbolTable.empty, Inventory.nothing]
  groups group := by simp [members?, SymbolTable.empty, Inventory.nothing]
  members group := rfl

theorem distinct_append (names more : List String) :
    Contribution.distinct (names ++ more) =
      more.foldl Contribution.pushNew (Contribution.distinct names) :=
  List.foldl_append

/-- A name that comes once more in a list of its own comes first where it came first. -/
theorem foldl_pushNew_distinct (known names : List String) :
    (Contribution.distinct names).foldl Contribution.pushNew known =
      names.foldl Contribution.pushNew known :=
  foldl_pushNew_foldl_pushNew known [] names

theorem isSome_joinMembers (known new : Option (List String)) :
    (joinMembers known new).isSome ↔ known.isSome ∨ new.isSome := by
  cases new <;> simp [joinMembers]

theorem getD_joinMembers (known new : Option (List String)) :
    (joinMembers known new).getD [] =
      (new.getD []).foldl Contribution.pushNew (known.getD []) := by
  cases new <;> rfl

theorem Accords.insert (h : t.Accords i) (e : SymbolEntry) :
    (t.insert e).Accords (i.append (.ofKey e.kind e.name)) where
  wellFormed := h.wellFormed.insert e
  symbols kind name := by
    rw [get?_insert h.wellFormed, Option.isSome_or, Bool.or_eq_true, h.symbols, Inventory.append,
      List.mem_append, Inventory.ofKey, List.mem_singleton, Prod.mk.injEq]
    refine or_congr_right ?_
    by_cases hkey : e.kind = kind ∧ e.name = name
    · simp [hkey]
    · rw [if_neg hkey]
      exact ⟨fun hs => absurd hs (by decide), fun hs => absurd ⟨hs.1.symm, hs.2.symm⟩ hkey⟩
  groups group := by
    rw [members?_insert, h.groups]
    simp [Inventory.append, Inventory.ofKey]
  members group := by
    rw [members?_insert, h.members]
    simp [Inventory.append, Inventory.ofKey]

/-- **One reading more is one entry more.** -/
theorem Accords.addEntry (h : t.Accords i) (e : EntryShape × DeclaredEntry) :
    (t.contribute (Contribution.ofShape e.1 e.2)).Accords (i.append (entryInventory e)) := by
  cases hgroup : (Contribution.ofShape e.1 e.2).group with
  | none =>
      have hinventory : entryInventory e =
          .ofKey (Contribution.ofShape e.1 e.2).entry.kind
            (Contribution.ofShape e.1 e.2).entry.name := by
        simp [entryInventory, Inventory.ofKey, hgroup]
      rw [contribute, hgroup, hinventory]
      exact h.insert _
  | some group =>
      have hadded : (t.addMembers group.name group.members).Accords (i.append
          ⟨[], [group.name], fun g => if group.name = g then e.2.children else []⟩) := by
        refine ⟨h.wellFormed.addMembers _ _, fun kind name => ?_, fun g => ?_, fun g => ?_⟩
        · rw [get?_addMembers, h.symbols]
          simp [Inventory.append]
        · rw [members?_addMembers h.wellFormed, Inventory.append, List.mem_append,
            List.mem_singleton, ← h.groups]
          split
          · rename_i hg
            simp [isSome_joinMembers, hg]
          · rename_i hg
            simp [hg]
        · rw [members?_addMembers h.wellFormed, Inventory.append, distinct_append, ← h.members]
          dsimp only
          split
          · rename_i hg
            rw [hg, if_pos rfl, getD_joinMembers, Option.getD_some, members_of_group hgroup,
              foldl_pushNew_distinct]
          · rename_i hg
            rw [if_neg (Ne.symm hg), List.foldl_nil]
      have hinventory : entryInventory e = Inventory.append
          ⟨[], [group.name], fun g => if group.name = g then e.2.children else []⟩
          (.ofKey (Contribution.ofShape e.1 e.2).entry.kind
            (Contribution.ofShape e.1 e.2).entry.name) := by
        simp [entryInventory, Inventory.ofKey, Inventory.append, hgroup]
      rw [contribute, hgroup, hinventory, ← Inventory.append_assoc]
      exact hadded.insert _

/-- **A merge is both inventories, one after the other.** -/
theorem Accords.merge (h : t.Accords i) (hu : u.Accords j) :
    (t.merge u).Accords (i.append j) where
  wellFormed := h.wellFormed.merge u
  symbols kind name := by
    rw [get?_merge h.wellFormed hu.wellFormed, Option.isSome_or, Bool.or_eq_true, h.symbols,
      hu.symbols, Inventory.append, List.mem_append]
  groups group := by
    rw [members?_merge h.wellFormed hu.wellFormed, isSome_joinMembers, h.groups, hu.groups,
      Inventory.append, List.mem_append]
  members group := by
    rw [members?_merge h.wellFormed hu.wellFormed, getD_joinMembers, h.members, hu.members,
      foldl_pushNew_distinct, Inventory.append, distinct_append]

/-- A resize adds nothing and loses nothing. -/
theorem Accords.resize (h : t.Accords i) : t.resize.Accords i where
  wellFormed := h.wellFormed.resize
  symbols kind name := by
    rw [get?_resize, ← h.symbols]
    split
    · rw [Option.isSome_map]
    · rfl
  groups := h.groups
  members := h.members

/-- **What one step adds, a run adds for every element.** -/
theorem Accords.foldl {α : Type} {f : SymbolTable → α → SymbolTable} {declared : α → Inventory}
    {l : List α}
    (hstep : ∀ a ∈ l, ∀ {t i}, t.Accords i → (f t a).Accords (i.append (declared a)))
    (h : t.Accords i) : (l.foldl f t).Accords (i.append (.concat declared l)) := by
  induction l generalizing t i with
  | nil => rwa [Inventory.concat_nil, Inventory.append_nothing]
  | cons a l ih =>
      rw [List.foldl_cons, Inventory.concat_cons, ← Inventory.append_assoc]
      exact ih (fun x hx => hstep x (List.mem_cons_of_mem _ hx)) (hstep a List.mem_cons_self h)

theorem Accords.addIds (h : t.Accords i) (ids : List String) :
    (t.addIds ids).Accords (i.append (.concat (.ofKey .id) ids)) :=
  h.foldl fun id _ _ _ ht => ht.insert (.scalar .id id)

/-- **The declarations of a values file**, one reading after the other. -/
theorem Accords.addDeclarations (h : t.Accords i) {declarations : List Declaration}
    (hu : t.addDeclarations .standard declarations = .ok u) :
    u.Accords (i.append (.concat Declaration.inventory declarations)) := by
  have hrun : t.addDeclarations .standard declarations =
      .ok ((declarations.flatMap Declaration.entries).foldl
        (fun t e => t.contribute (Contribution.ofShape e.1 e.2)) t) :=
    List.foldlM_pure
  rw [hrun] at hu
  rw [← Except.ok.inj hu, ← funext concat_entries, ← Inventory.concat_flatMap]
  exact h.foldl fun e _ _ _ ht => ht.addEntry e

end SymbolTable

end ResourceStubs
