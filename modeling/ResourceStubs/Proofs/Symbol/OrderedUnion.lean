import ResourceStubs.Proofs.Symbol.CollectionOrder

/-!
# Merging is an ordered union

The tables that the operations make (`Reachable`) are well formed, so a merge of two of
them is read off `get?` and `members?`: symbols are found in the first table or else in
the second, and behind the members of the first stand those of the second that are new.

Both parts are unions in which the left side wins, so merging is associative, has the
empty table as its unit, and takes in a table a second time without a change
(`merge_is_ordered_union`).  The laws hold of the whole table, with its values and with
the members in their order.  For the unit and for `merge_self` the members of a group
must be free of repetitions; that is one of the things that `WellFormed` says.
-/

namespace ResourceStubs
namespace SymbolTable

/-- A table that the operations make from the empty one. -/
inductive Reachable : SymbolTable → Prop
  | empty : Reachable .empty
  | insert {t : SymbolTable} (ht : Reachable t) (e : SymbolEntry) : Reachable (t.insert e)
  | addMembers {t : SymbolTable} (ht : Reachable t) (group : String) (names : List String) :
      Reachable (t.addMembers group names)
  | contribute {t : SymbolTable} (ht : Reachable t) (c : Contribution) :
      Reachable (t.contribute c)
  | addLine {t u : SymbolTable} (ht : Reachable t) {line : String}
      (hu : t.addLine line = .ok u) : Reachable u
  | merge {t u : SymbolTable} (ht : Reachable t) (hu : Reachable u) : Reachable (t.merge u)
  | resize {t : SymbolTable} (ht : Reachable t) : Reachable t.resize

variable {a b c t : SymbolTable}

/-- **Every operation keeps a table well formed.** -/
theorem Reachable.wellFormed (h : t.Reachable) : t.WellFormed := by
  induction h with
  | empty => exact wellFormed_empty
  | insert _ e ih => exact ih.insert e
  | addMembers _ group names ih => exact ih.addMembers group names
  | contribute _ c ih => exact ih.contribute c
  | addLine _ hu ih => exact ih.addLine hu
  | @merge t u _ _ iht _ => exact iht.merge u
  | resize _ ih => exact ih.resize

/-! ## Members, one list behind the other -/

theorem foldl_pushNew_foldl_pushNew (known more names : List String) :
    (names.foldl Contribution.pushNew more).foldl Contribution.pushNew known =
      names.foldl Contribution.pushNew (more.foldl Contribution.pushNew known) := by
  simp only [Contribution.foldl_pushNew]
  exact firsts_firsts known more names

theorem foldl_pushNew_nil {names : List String} (h : names.Nodup) :
    names.foldl Contribution.pushNew [] = names := by
  rw [Contribution.foldl_pushNew]
  exact firsts_eq_append (by rwa [List.nil_append, List.map_id'])

theorem joinMembers_assoc (x y z : Option (List String)) :
    joinMembers (joinMembers x y) z = joinMembers x (joinMembers y z) := by
  cases z with
  | none => rfl
  | some names =>
      refine congrArg some ?_
      rw [foldl_pushNew_foldl_pushNew]
      cases y <;> rfl

/-- Behind the members of the first list stand those of the second that are new. -/
theorem joinMembers_eq_merge {known new : Option (List String)}
    (h : ∀ names, new = some names → names.Nodup) :
    joinMembers known new = known.merge (fun m n => m ++ n.filter (· ∉ m)) new := by
  cases new with
  | none => cases known <;> rfl
  | some names =>
      have hnodup := h names rfl
      cases known with
      | none => exact congrArg some (foldl_pushNew_nil hnodup)
      | some known =>
          refine congrArg some ?_
          rw [Option.getD_some, Contribution.foldl_pushNew,
            firsts_eq_append_filter (by rwa [List.map_id'])]
          simp only [List.map_id']

/-! ## The laws -/

theorem Within.refl (t : SymbolTable) : t.Within t :=
  ⟨fun _ _ h => h, fun _ names h => ⟨names, h, List.Subset.refl names⟩⟩

theorem within_empty (t : SymbolTable) : SymbolTable.empty.Within t where
  symbols kind name h := absurd h (by simp [get?, entries, SymbolTable.empty])
  members group names h := absurd h (by simp [members?, SymbolTable.empty])

theorem merge_assoc (ha : a.WellFormed) (hb : b.WellFormed) (hc : c.WellFormed) :
    (a.merge b).merge c = a.merge (b.merge c) := by
  have hbc := hb.merge c
  refine ((ha.merge b).merge c).ext (ha.merge _) (fun kind name => ?_) fun group => ?_
  · rw [get?_merge (ha.merge b) hc, get?_merge ha hb, get?_merge ha hbc, get?_merge hb hc,
      Option.or_assoc]
  · rw [members?_merge (ha.merge b) hc, members?_merge ha hb, members?_merge ha hbc,
      members?_merge hb hc, joinMembers_assoc]

theorem merge_empty (ha : a.WellFormed) : a.merge .empty = a :=
  merge_eq_self ha wellFormed_empty (within_empty a)

theorem empty_merge (ha : a.WellFormed) : SymbolTable.empty.merge a = a := by
  refine (wellFormed_empty.merge a).ext ha (fun kind name => ?_) fun group => ?_
  · rw [get?_merge wellFormed_empty ha]
    exact Option.none_or
  · rw [members?_merge wellFormed_empty ha]
    cases h : a.members? group with
    | none => rfl
    | some names => exact congrArg some (foldl_pushNew_nil (nodup_of_members? ha h))

theorem merge_self (ha : a.WellFormed) : a.merge a = a :=
  merge_eq_self ha ha (Within.refl a)

/-- The first table has nothing new for a merge that it began. -/
theorem merge_absorbs_left (ha : a.WellFormed) (hb : b.WellFormed) :
    (a.merge b).merge a = a.merge b :=
  merge_eq_self (ha.merge b) ha ((Within.refl a).merge ha hb)

/-- **Merging is an ordered union.**  It is associative and idempotent, the empty table is
its unit on both sides, and merging the first table again changes nothing.  What is found
in a merge is found in the first table or else in the second; behind the members of the
first table stand the new ones of the second, in their order. -/
theorem merge_is_ordered_union (ha : a.Reachable) (hb : b.Reachable) (hc : c.Reachable) :
    (a.merge b).merge c = a.merge (b.merge c) ∧
    a.merge .empty = a ∧ SymbolTable.empty.merge a = a ∧
    a.merge a = a ∧ (a.merge b).merge a = a.merge b ∧
    (∀ kind name, (a.merge b).get? kind name = (a.get? kind name).or (b.get? kind name)) ∧
    ∀ group, (a.merge b).members? group =
      (a.members? group).merge (fun m n => m ++ n.filter (· ∉ m)) (b.members? group) := by
  have hwa := ha.wellFormed
  have hwb := hb.wellFormed
  refine ⟨merge_assoc hwa hwb hc.wellFormed, merge_empty hwa, empty_merge hwa, merge_self hwa,
    merge_absorbs_left hwa hwb, get?_merge hwa hwb, fun group => ?_⟩
  rw [members?_merge hwa hwb]
  exact joinMembers_eq_merge fun _ h => nodup_of_members? hwb h

theorem reachable_scalarAndGroupTable : Collect.scalarAndGroupTable.Reachable := by
  have hmade : ((empty.insert (.scalar .styleable "S")).insert (.scalar .attr "x")).contribute
      (.styleable (.group "S" ["x"])) = Collect.scalarAndGroupTable := by decide
  rw [← hmade]
  exact ((Reachable.empty.insert _).insert _).contribute _

theorem reachable_groupAgainTable : Collect.groupAgainTable.Reachable := by
  have hmade : ((empty.insert (.scalar .attr "x")).insert (.scalar .attr "y")).contribute
      (.styleable (.group "S" ["y", "x", "y"])) = Collect.groupAgainTable := by decide
  rw [← hmade]
  exact ((Reachable.empty.insert _).insert _).contribute _

/-- A group in three tables, with a scalar for its symbol in the first and an array in the
second. -/
theorem merge_is_ordered_union_splitGroup :
    (Collect.scalarAndGroupTable.merge Collect.groupAgainTable).merge
        (empty.addMembers "S" ["z", "y"]) =
      Collect.scalarAndGroupTable.merge
        (Collect.groupAgainTable.merge (empty.addMembers "S" ["z", "y"])) ∧
    (Collect.scalarAndGroupTable.merge Collect.groupAgainTable).get? .styleable "S" =
      some (.scalar .styleable "S") ∧
    (Collect.scalarAndGroupTable.merge Collect.groupAgainTable).members? "S" =
      some ["x", "y"] := by
  obtain ⟨hassoc, -, -, -, -, hget, hmembers⟩ := merge_is_ordered_union
    reachable_scalarAndGroupTable reachable_groupAgainTable
    (Reachable.empty.addMembers "S" ["z", "y"])
  exact ⟨hassoc, (hget .styleable "S").trans (by decide +kernel),
    (hmembers "S").trans (by decide +kernel)⟩

end SymbolTable
end ResourceStubs
