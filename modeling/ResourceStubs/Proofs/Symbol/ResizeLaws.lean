import ResourceStubs.Proofs.Symbol.Representation

/-!
# When arrays are brought up to date

A resize writes the array of every group anew, and what it writes depends on the members of
the group alone.  So nothing is left of an earlier resize: resizing again changes nothing
(`resize_resize`), and tables that were resized before a merge are worth no more than the tables
themselves once the merge is resized (`resize_merge_resize`).

The second law is not a matter of one table.  The symbol of a group may come from one of the
two tables and the group from the other, and the symbol that a merge keeps has the number of
places that its own table had for it.  What carries the law is that a merge knows every group
of both tables (`isSome_members?_merge`), so every symbol that was written before is written
once more.
-/

namespace ResourceStubs
namespace SymbolTable

variable {a b t u : SymbolTable}

/-! ## One symbol -/

section Entry

variable {groups more : List (String × List String)} {e : SymbolEntry}

theorem resizeEntry_of_lookup {members : List String} (h : groups.lookup e.name = some members) :
    resizeEntry groups e = .array .styleable e.name (placeholderArray members.length) := by
  rw [resizeEntry, h]

theorem resizeEntry_of_lookup_eq_none (h : groups.lookup e.name = none) :
    resizeEntry groups e = e := by
  rw [resizeEntry, h]

/-- **What was written for fewer groups is written once more.** -/
theorem resizeEntry_resizeEntry
    (h : ∀ name, (groups.lookup name).isSome → (more.lookup name).isSome) (e : SymbolEntry) :
    resizeEntry more (resizeEntry groups e) = resizeEntry more e := by
  cases hfew : groups.lookup e.name with
  | none => rw [resizeEntry_of_lookup_eq_none hfew]
  | some members =>
      obtain ⟨all, hall⟩ := Option.isSome_iff_exists.1 (h e.name (by rw [hfew]; rfl))
      have hwritten : more.lookup (resizeEntry groups e).name = some all := by
        rw [name_resizeEntry, hall]
      rw [resizeEntry_of_lookup hwritten, resizeEntry_of_lookup hall, name_resizeEntry]

end Entry

/-! ## One table -/

/-- **Resizing again changes nothing.** -/
theorem resize_resize (t : SymbolTable) : t.resize.resize = t.resize := by
  have hbucket : ∀ x : ResourceKind × List SymbolEntry,
      resizeBucket t.groups x.1 (resizeBucket t.groups x.1 x.2) =
        resizeBucket t.groups x.1 x.2 := by
    intro x
    by_cases hkind : x.1 = .styleable
    · rw [resizeBucket, resizeBucket, if_pos hkind, if_pos hkind, List.map_map]
      exact List.map_congr_left fun e _ => resizeEntry_resizeEntry (fun _ h => h) e
    · rw [resizeBucket, if_neg hkind]
  have hbuckets : t.resize.resize.buckets = t.resize.buckets := by
    rw [resize_buckets, resize_buckets, List.map_map]
    exact List.map_congr_left fun x _ => Prod.ext rfl (hbucket x)
  exact congrArg (SymbolTable.mk · t.groups) hbuckets

/-- Only the symbol of a group is written. -/
theorem get?_resize_of_not_group {kind : ResourceKind} {name : String}
    (ht : t.WellFormed) (h : ¬(kind = .styleable ∧ (t.members? name).isSome)) :
    t.resize.get? kind name = t.get? kind name := by
  rw [get?_resize]
  split
  · rename_i hkind
    have hnone : t.groups.lookup name = none :=
      Option.not_isSome_iff_eq_none.1 fun hsome => h ⟨hkind, hsome⟩
    cases hget : t.get? kind name with
    | none => rfl
    | some e =>
        rw [← name_of_get? ht hget] at hnone
        rw [Option.map_some, resizeEntry_of_lookup_eq_none hnone]
  · rfl

/-- The symbol of a group gets a place for each member, whatever it was before. -/
theorem get?_resize_of_members? {group : String} {members : List String} (ht : t.WellFormed)
    (h : t.members? group = some members) :
    t.resize.get? .styleable group = (t.get? .styleable group).map fun _ =>
      .array .styleable group (placeholderArray members.length) := by
  rw [get?_resize, if_pos rfl]
  cases hget : t.get? .styleable group with
  | none => rfl
  | some e =>
      have hname := name_of_get? ht hget
      have hlookup : t.groups.lookup e.name = some members := by rw [hname]; exact h
      rw [Option.map_some, Option.map_some, resizeEntry_of_lookup hlookup, hname]

/-! ## Two tables -/

/-- A merge knows the groups of both tables. -/
theorem isSome_members?_merge (ha : a.WellFormed) (hb : b.WellFormed) (group : String) :
    ((a.merge b).members? group).isSome =
      ((a.members? group).isSome || (b.members? group).isSome) := by
  rw [members?_merge ha hb]
  cases b.members? group with
  | none => rw [joinMembers_none, Option.isSome_none, Bool.or_false]
  | some names => rw [joinMembers, Option.isSome_some, Option.isSome_some, Bool.or_true]

/-- A resize sees the members of groups, and of their symbols nothing that it writes. -/
theorem resize_eq_of_same (ht : t.WellFormed) (hu : u.WellFormed)
    (hmembers : ∀ group, t.members? group = u.members? group)
    (hothers : ∀ kind name, kind ≠ .styleable → t.get? kind name = u.get? kind name)
    (hgroups : ∀ name, (t.get? .styleable name).map (resizeEntry u.groups) =
      (u.get? .styleable name).map (resizeEntry u.groups)) :
    t.resize = u.resize := by
  have hsame : t.groups = u.groups := ht.groups.ext hu.groups hmembers
  refine ht.resize.ext hu.resize (fun kind name => ?_) hmembers
  rw [get?_resize, get?_resize, hsame]
  split
  · rename_i hkind
    rw [hkind]
    exact hgroups name
  · rename_i hkind
    exact hothers kind name hkind

/-- What a resize wrote is not seen by a later one that knows the groups. -/
theorem map_resizeEntry_get?_resize {groups : List (String × List String)}
    (h : ∀ name, (t.members? name).isSome → (groups.lookup name).isSome) (name : String) :
    (t.resize.get? .styleable name).map (resizeEntry groups) =
      (t.get? .styleable name).map (resizeEntry groups) := by
  rw [get?_resize, if_pos rfl, Option.map_map]
  exact congrArg (Option.map · _) (funext (resizeEntry_resizeEntry h))

/-- **Two tables may be resized before a merge that is resized, or not.** -/
theorem resize_merge_resize (ha : a.WellFormed) (hb : b.WellFormed) :
    (a.resize.merge b.resize).resize = (a.merge b).resize := by
  have hleft : ∀ name, (a.members? name).isSome → ((a.merge b).members? name).isSome :=
    fun name h => by rw [isSome_members?_merge ha hb, h, Bool.true_or]
  have hright : ∀ name, (b.members? name).isSome → ((a.merge b).members? name).isSome :=
    fun name h => by rw [isSome_members?_merge ha hb, h, Bool.or_true]
  refine resize_eq_of_same (ha.resize.merge _) (ha.merge b) (fun group => ?_)
    (fun kind name hkind => ?_) fun name => ?_
  · rw [members?_merge ha.resize hb.resize, members?_merge ha hb, members?_resize, members?_resize]
  · rw [get?_merge ha.resize hb.resize, get?_merge ha hb, get?_resize, get?_resize, if_neg hkind,
      if_neg hkind]
  · rw [get?_merge ha.resize hb.resize, get?_merge ha hb, Option.map_or, Option.map_or,
      map_resizeEntry_get?_resize hleft, map_resizeEntry_get?_resize hright]

/-- **The last resize is the only one that counts.**  Resizing a table twice is resizing it
once, and when a merge is resized it does not matter whether its tables were resized before.
A resize leaves the keys and the groups with their members, and every symbol but those of
groups; the symbol of a group, if there is one, becomes an array with a place for each of the
members. -/
theorem resize_absorbs_resize (ha : a.Reachable) (hb : b.Reachable) :
    a.resize.resize = a.resize ∧
    (a.resize.merge b.resize).resize = (a.merge b).resize ∧
    a.resize.keys = a.keys ∧ a.resize.groups = a.groups ∧
    (∀ kind name, ¬(kind = .styleable ∧ (a.members? name).isSome) →
      a.resize.get? kind name = a.get? kind name) ∧
    ∀ group members, a.members? group = some members →
      a.resize.get? .styleable group = (a.get? .styleable group).map fun _ =>
        .array .styleable group (placeholderArray members.length) := by
  have hwa := ha.wellFormed
  exact ⟨resize_resize a, resize_merge_resize hwa hb.wellFormed, keys_resize hwa, rfl,
    fun _ _ => get?_resize_of_not_group hwa, fun _ _ => get?_resize_of_members? hwa⟩

/-- The symbol of the group is a scalar in the first table, which has one member for it, and an
array in the second, which has two.  The first table's own resize gives it one place, and the
merge two in the end. -/
theorem resize_absorbs_resize_splitGroup :
    (Collect.scalarAndGroupTable.resize.merge Collect.groupAgainTable.resize).resize =
      (Collect.scalarAndGroupTable.merge Collect.groupAgainTable).resize ∧
    Collect.scalarAndGroupTable.get? .styleable "S" = some (.scalar .styleable "S") ∧
    Collect.scalarAndGroupTable.resize.get? .styleable "S" =
      some (.array .styleable "S" (placeholderArray 1)) ∧
    (Collect.scalarAndGroupTable.merge Collect.groupAgainTable).resize.get? .styleable "S" =
      some (.array .styleable "S" (placeholderArray 2)) := by
  obtain ⟨-, hmerge, -, -, -, hgroup⟩ :=
    resize_absorbs_resize reachable_scalarAndGroupTable reachable_groupAgainTable
  obtain ⟨-, -, -, -, -, hboth⟩ := resize_absorbs_resize
    (reachable_scalarAndGroupTable.merge reachable_groupAgainTable) reachable_groupAgainTable
  exact ⟨hmerge, by decide +kernel,
    (hgroup "S" ["x"] (by decide +kernel)).trans (by decide +kernel),
    (hboth "S" ["x", "y"] (by decide +kernel)).trans (by decide +kernel)⟩

end SymbolTable
end ResourceStubs
