import ResourceStubs.Proofs.Symbol.ArrayText
import ResourceStubs.Proofs.Symbol.CollectionOrder
import ResourceStubs.Proofs.Symbol.FieldBlocks
import ResourceStubs.Proofs.Symbol.RClassText
import ResourceStubs.Proofs.Symbol.ResizeLaws

/-!
# Arrays have a place for each member

The array of a group is written when the group is declared, grows stale while tables are
merged, and is written again by one resize.  Two invariants carry this.

* `GroupsDeclared`: every group has a symbol, of whatever value.  It holds of what one
  file declares, for the reader of groups adds the symbol together with the members, and
  adding and merging keep it.  A symbol that was there first stays, even a scalar one.
* `ArraysSized`: the symbol of every group is the array with a place for each member.
  A resize turns the first invariant into this one (`GroupsDeclared.resize`), and the
  lines of dependencies, which add symbols and no members, keep it.

`arrays_sized_in_source` carries the second one into the source of the class `R`: behind
the array of a group stand the indices of its members, each below the number of values,
and no two alike.
-/

namespace ResourceStubs

namespace SymbolTable

/-- Every group has a symbol. -/
def GroupsDeclared (t : SymbolTable) : Prop :=
  ∀ group, (t.members? group).isSome → (t.get? .styleable group).isSome

/-- The symbol of every group is the array with a place for each member. -/
def ArraysSized (t : SymbolTable) : Prop :=
  ∀ group members, t.members? group = some members →
    t.get? .styleable group = some (.array .styleable group (placeholderArray members.length))

variable {t u : SymbolTable}

/-! ## Every group has a symbol -/

theorem groupsDeclared_empty : empty.GroupsDeclared := by
  intro group h
  exact absurd h (by simp [members?, empty])

theorem GroupsDeclared.insert (h : t.GroupsDeclared) (ht : t.WellFormed) (e : SymbolEntry) :
    (t.insert e).GroupsDeclared := by
  intro group hgroup
  rw [members?_insert] at hgroup
  rw [get?_insert ht, Option.isSome_or, h group hgroup, Bool.true_or]

/-- Members may come together with the symbol of their group. -/
theorem GroupsDeclared.insert_addMembers (h : t.GroupsDeclared) (ht : t.WellFormed)
    {e : SymbolEntry} (hkind : e.kind = .styleable) (members : List String) :
    ((t.addMembers e.name members).insert e).GroupsDeclared := by
  intro group hgroup
  rw [members?_insert, members?_addMembers ht] at hgroup
  rw [get?_insert (ht.addMembers _ _), get?_addMembers, Option.isSome_or]
  by_cases hname : group = e.name
  · rw [if_pos ⟨hkind, hname.symm⟩, Option.isSome_some, Bool.or_true]
  · rw [if_neg hname] at hgroup
    rw [h group hgroup, Bool.true_or]

/-- Only the reader of groups contributes members, and it contributes their symbol. -/
theorem kind_and_name_of_group {shape : EntryShape} {d : DeclaredEntry} {group : StyleableGroup}
    (h : (Contribution.ofShape shape d).group = some group) :
    (Contribution.ofShape shape d).entry.kind = .styleable ∧
      (Contribution.ofShape shape d).entry.name = group.name := by
  cases shape with
  | plain =>
      cases d with
      | single name kind => exact absurd h (by simp [Contribution.ofShape, Contribution.plain,
          Contribution.ofEntry])
      | group name children => exact absurd h (by simp [Contribution.ofShape,
          Contribution.plain, Contribution.ofEntry])
  | array =>
      exact absurd h (by simp [Contribution.ofShape, Contribution.array, Contribution.ofEntry])
  | style =>
      exact absurd h (by simp [Contribution.ofShape, Contribution.style, Contribution.ofEntry])
  | id =>
      exact absurd h (by simp [Contribution.ofShape, Contribution.id, Contribution.ofEntry])
  | styleable =>
      have hgroup := Option.some.inj h
      rw [← hgroup]
      exact ⟨rfl, rfl⟩

theorem GroupsDeclared.contribute (h : t.GroupsDeclared) (ht : t.WellFormed)
    (shape : EntryShape) (d : DeclaredEntry) :
    (t.contribute (Contribution.ofShape shape d)).GroupsDeclared := by
  rw [SymbolTable.contribute]
  split
  · rename_i group hgroup
    obtain ⟨hkind, hname⟩ := kind_and_name_of_group hgroup
    rw [← hname]
    exact h.insert_addMembers ht hkind _
  · exact h.insert ht _

theorem GroupsDeclared.addDeclarations (h : t.GroupsDeclared) (ht : t.WellFormed)
    {declarations : List Declaration} (hu : t.addDeclarations .standard declarations = .ok u) :
    u.GroupsDeclared := by
  have hboth : u.WellFormed ∧ u.GroupsDeclared := by
    refine foldlM_induction (P := fun v : SymbolTable => v.WellFormed ∧ v.GroupsDeclared) hu
      ⟨ht, h⟩ fun v hv e _ w hw => ⟨hv.1.addEntry hw, ?_⟩
    rw [addEntry, Registry.read_standard] at hw
    rw [← Except.ok.inj hw]
    exact hv.2.contribute hv.1 e.1 e.2
  exact hboth.2

theorem GroupsDeclared.addIds (h : t.GroupsDeclared) (ht : t.WellFormed) (ids : List String) :
    (t.addIds ids).GroupsDeclared := by
  induction ids generalizing t with
  | nil => exact h
  | cons id ids ih => exact ih (h.insert ht _) (ht.insert _)

theorem GroupsDeclared.merge (h : t.GroupsDeclared) (hu : u.GroupsDeclared) (ht : t.WellFormed)
    (hwu : u.WellFormed) : (t.merge u).GroupsDeclared := by
  intro group hgroup
  rw [members?_merge ht hwu] at hgroup
  rw [get?_merge ht hwu, Option.isSome_or, Bool.or_eq_true]
  cases hm : u.members? group with
  | none =>
      rw [hm, joinMembers_none] at hgroup
      exact Or.inl (h group hgroup)
  | some names => exact Or.inr (hu group (by rw [hm]; rfl))

/-! ## Every array has its size -/

/-- **A resize gives every array its size**, whatever stood in its place. -/
theorem GroupsDeclared.resize (h : t.GroupsDeclared) (ht : t.WellFormed) :
    t.resize.ArraysSized := by
  intro group members hmembers
  rw [members?_resize] at hmembers
  obtain ⟨e, he⟩ := Option.isSome_iff_exists.1 (h group (by rw [hmembers]; rfl))
  rw [get?_resize_of_members? ht hmembers, he, Option.map_some]

/-- What comes later changes no array. -/
theorem ArraysSized.insert (h : t.ArraysSized) (ht : t.WellFormed) (e : SymbolEntry) :
    (t.insert e).ArraysSized := by
  intro group members hmembers
  rw [members?_insert] at hmembers
  rw [get?_insert ht, h group members hmembers, Option.some_or]

theorem ArraysSized.addLine (h : t.ArraysSized) (ht : t.WellFormed) {line : String}
    (hu : t.addLine line = .ok u) : u.ArraysSized := by
  obtain ⟨e, -, hu⟩ := bind_eq_ok_iff.1 hu
  cases e with
  | none =>
      rw [← Except.ok.inj hu]
      exact h
  | some e =>
      rw [← Except.ok.inj hu]
      exact h.insert ht e

end SymbolTable

namespace Collect

open SymbolTable

variable {tree : Tree} {p : Path} {t : SymbolTable}

theorem groupsDeclared_file (h : file .standard tree p = .ok t) : t.GroupsDeclared := by
  rw [file] at h
  split at h
  · obtain ⟨_, _, -, -, h⟩ := valuesFile_eq_ok_iff.1 h
    exact groupsDeclared_empty.addDeclarations wellFormed_empty h
  · obtain ⟨ids, _, -, -, rfl⟩ := resourceFile_eq_ok_iff.1 h
    exact (groupsDeclared_empty.addIds wellFormed_empty ids).insert
      (wellFormed_empty.addIds ids) _

theorem wellFormed_and_groupsDeclared_merged {tables : List (Path × SymbolTable)}
    (h : ∀ x ∈ tables, x.2.WellFormed ∧ x.2.GroupsDeclared) :
    (merged tables).WellFormed ∧ (merged tables).GroupsDeclared := by
  have hrun : ∀ (l : List (Path × SymbolTable)) (u : SymbolTable),
      (∀ x ∈ l, x.2.WellFormed ∧ x.2.GroupsDeclared) → u.WellFormed ∧ u.GroupsDeclared →
        (l.foldl (fun t part => t.merge part.2) u).WellFormed ∧
          (l.foldl (fun t part => t.merge part.2) u).GroupsDeclared := by
    intro l
    induction l with
    | nil => exact fun u _ hu => hu
    | cons x l ih =>
        intro u hl hu
        have hx := hl x List.mem_cons_self
        exact ih _ (fun y hy => hl y (List.mem_cons_of_mem _ hy))
          ⟨hu.1.merge x.2, hu.2.merge hx.2 hu.1 hx.1⟩
  refine hrun _ _ (fun x hx => h x ?_) ⟨wellFormed_empty, groupsDeclared_empty⟩
  exact List.mem_mergeSort.1 hx

/-- **What is collected has all its arrays in their sizes.** -/
theorem wellFormed_and_arraysSized_all {nonTransitive : Bool} {files : List Path}
    {lines : List String} (h : all .standard nonTransitive tree files lines = .ok t) :
    t.WellFormed ∧ t.ArraysSized := by
  obtain ⟨tables, htables, h⟩ := bind_eq_ok_iff.1 h
  have hfile : ∀ x ∈ tables, x.2.WellFormed ∧ x.2.GroupsDeclared := by
    intro x hx
    obtain ⟨q, -, hq⟩ := (mem_of_mapM_eq_ok htables).1 hx
    have hq' := (located_eq_ok_iff.1 hq).2
    exact ⟨wellFormed_file hq', groupsDeclared_file hq'⟩
  obtain ⟨hwf, hdeclared⟩ := wellFormed_and_groupsDeclared_merged hfile
  have hown : (merged tables).resize.WellFormed ∧ (merged tables).resize.ArraysSized :=
    ⟨hwf.resize, hdeclared.resize hwf⟩
  split at h
  · rw [← Except.ok.inj h]
    exact hown
  · exact foldlM_induction (P := fun v : SymbolTable => v.WellFormed ∧ v.ArraysSized) h hown
      fun v hv _ _ w hw => ⟨hv.1.addLine hw, hv.2.addLine hv.1 hw⟩

end Collect

/-! ## The source of the class `R` -/

namespace RClass

open Java

/-- The members of a block stand behind their array: the block's own field is an array of
integers, and the members have indices of their own, each the place of the member in its
group and below the number of values of the array. -/
structure Block.Indexed (t : SymbolTable) (b : Block) : Prop where
  distinct : (b.members.map Prod.fst).Nodup
  array : b.members ≠ [] → b.own.type = "int[]" ∧ b.own.name = identifier b.entry.name
  below : ∀ x ∈ b.members, x.1 < (arrayValues b.own.value).length
  place : ∀ x ∈ b.members, ∃ members, t.members? b.entry.name = some members ∧
    members[x.1]? = some x.2

theorem ownField_array (name : String) (count : Nat) :
    ownField (.array .styleable name (placeholderArray count)) =
      ⟨"int[]", identifier name, placeholderArray count⟩ := by
  have hshape : (SymbolEntry.array .styleable name (placeholderArray count)).isArray = true ∧
      (placeholderArray count).toList.head? = some '\x7b' := ⟨rfl, head?_placeholderArray count⟩
  rw [ownField]
  exact if_pos hshape

variable {t : SymbolTable}

/-- A symbol whose block has members is the array of its group. -/
theorem entry_eq_array (ht : t.WellFormed) (hsized : t.ArraysSized) {kind : ResourceKind}
    {e : SymbolEntry} (he : e ∈ t.entries kind) {taken : List String}
    {x : Nat × String} (hx : x ∈ (blockOf t taken e).members) :
    ∃ members, t.members? e.name = some members ∧ members[x.1]? = some x.2 ∧
      e = .array .styleable e.name (placeholderArray members.length) := by
  obtain ⟨hkind, members, hmembers, hplace⟩ := place_of_mem_members hx
  refine ⟨members, hmembers, hplace, ?_⟩
  have hk : kind = .styleable := (SymbolTable.kind_of_mem_entries ht he).symm.trans hkind
  have hget : t.get? .styleable e.name = some e :=
    (SymbolTable.get?_eq_some_iff ht).2 ⟨by rw [← hk]; exact he, rfl⟩
  exact Option.some.inj (hget.symm.trans (hsized e.name members hmembers))

theorem indexed_blockOf (ht : t.WellFormed) (hsized : t.ArraysSized) {kind : ResourceKind}
    {e : SymbolEntry} (he : e ∈ t.entries kind) (taken : List String) :
    (blockOf t taken e).Indexed t where
  distinct := by
    rw [blockOf]
    split
    · exact nodup_emitted _ _ _ _
    · exact List.nodup_nil
  array := by
    intro hne
    obtain ⟨x, hx⟩ := List.exists_mem_of_ne_nil _ hne
    obtain ⟨members, -, -, heq⟩ := entry_eq_array ht hsized he hx
    rw [Block.own]
    show (ownField e).type = _ ∧ (ownField e).name = _
    rw [heq, ownField_array]
    exact ⟨rfl, rfl⟩
  below := by
    intro x hx
    obtain ⟨members, -, hplace, heq⟩ := entry_eq_array ht hsized he hx
    rw [Block.own]
    show x.1 < (arrayValues (ownField e).value).length
    rw [heq, ownField_array]
    show x.1 < (arrayValues (placeholderArray members.length)).length
    rw [length_arrayValues_placeholderArray]
    exact (List.getElem?_eq_some_iff.1 hplace).1
  place := by
    intro x hx
    obtain ⟨members, hmembers, hplace, -⟩ := entry_eq_array ht hsized he hx
    exact ⟨members, hmembers, hplace⟩

/-- **Arrays and members are in step, in the table and in the source.**  However the
groups, scalars and arrays of one name are spread over files and lines: in the table
that is collected, every group has an array with a place for each of its members; and
the source is made of blocks, each of which has its own field in front of those of its
members, whose indices differ and stay below the number of values of the array. -/
theorem arrays_sized_in_source {nonTransitive : Bool} {tree : Tree} {files : List Path}
    {lines : List String} {table : SymbolTable}
    (h : Collect.all .standard nonTransitive tree files lines = .ok table) :
    (∀ group members, table.members? group = some members →
      table.get? .styleable group =
        some (.array .styleable group (placeholderArray members.length))) ∧
    ∀ package,
      (render package table).body = classText ((kinds table).map fun kind =>
        nestedClass kind ((blocks table kind).flatMap Block.fields)) ∧
      ∀ kind, ((blocks table kind).map fun b => b.entry.name).Nodup ∧
        ∀ b ∈ blocks table kind, b.entry ∈ table.entries kind ∧ b.Indexed table := by
  obtain ⟨hwf, hsized⟩ := Collect.wellFormed_and_arraysSized_all h
  refine ⟨hsized, fun package => ⟨?_, fun kind => ⟨?_, fun b hb => ?_⟩⟩⟩
  · rw [body_render]
    simp only [fields_eq_flatMap_blocks]
  · have hsub := (sublist_blocks table kind).map SymbolEntry.name
    rw [List.map_map] at hsub
    exact hsub.nodup (nodup_name_entries hwf kind)
  · obtain ⟨taken, e, he, rfl⟩ := blockOf_of_mem hb
    exact ⟨he, indexed_blockOf hwf hsized he taken⟩

/-- A group in two files, with a symbol of its name before it and another behind it. -/
theorem arrays_sized_splitGroup :
    Collect.all .standard false Collect.splitGroup
      [⟨"res/values/a.xml"⟩, ⟨"res/values-v21/a.xml"⟩] ["int styleable S 0"] =
        .ok Collect.splitGroupTable ∧
    Collect.splitGroupTable.get? .styleable "S" =
      some (.array .styleable "S" (placeholderArray 2)) ∧
    blocks Collect.splitGroupTable .styleable =
      [⟨.array .styleable "S" "\x7b 0, 0 \x7d", [(0, "x"), (1, "y")]⟩] ∧
    ∀ b ∈ blocks Collect.splitGroupTable .styleable, b.Indexed Collect.splitGroupTable := by
  obtain ⟨hsized, hsource⟩ := arrays_sized_in_source Collect.all_splitGroup
  exact ⟨Collect.all_splitGroup, hsized "S" ["x", "y"] (by decide), by decide,
    fun b hb => (((hsource "p").2 .styleable).2 b hb).2⟩

end RClass
end ResourceStubs
