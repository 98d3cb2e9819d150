import Mathlib.Data.List.Infix
import Mathlib.Data.List.Sort
import ResourceStubs.Proofs.Symbol.Representation

/-!
# When the order of a merge does not matter

A merge has the keys of both tables and the members of both, whichever of the two comes
first.  What the order decides is whose value a symbol keeps, and whose members of a group
stand in front.  Values do not count when tables are compared (`sameKeys_iff`), so two
merges can only differ in the order of members.

Behind the members of one table stand those of the other that are new.  Each of the two
lists of a group is therefore the beginning of one of the merges, and if the merges agree,
both are beginnings of one list: then one of them begins with the other.  That is enough as
well, since a list has nothing new for one that begins with it
(`append_new_comm_iff`).

* `merge_comm_iff`: two tables commute if and only if, in every group that both have, one of
  the lists of members begins with the other.
-/

namespace ResourceStubs
namespace SymbolTable

variable {a b t u : SymbolTable}

/-! ## Tables that differ in their values only -/

/-- The names of the symbols of a kind. -/
def names (t : SymbolTable) (kind : ResourceKind) : List String :=
  (t.entries kind).map SymbolEntry.name

theorem mem_names (ht : t.WellFormed) {kind : ResourceKind} {name : String} :
    name ∈ t.names kind ↔ (kind, name) ∈ t.keys := by
  rw [names, List.mem_map, mem_keys ht, contains, Option.isSome_iff_exists]
  exact exists_congr fun e => (get?_eq_some_iff ht).symm

/-- Tables with the same keys list the same names. -/
theorem names_eq_of_keys (ht : t.WellFormed) (hu : u.WellFormed) (h : t.keys = u.keys)
    (kind : ResourceKind) : t.names kind = u.names kind := by
  have htn : (t.names kind).Pairwise (· < ·) :=
    pairwise_lt_names (ascendingByName_entries ht kind)
  have hun : (u.names kind).Pairwise (· < ·) :=
    pairwise_lt_names (ascendingByName_entries hu kind)
  refine htn.eq_of_mem_iff hun fun name => ?_
  rw [mem_names ht, mem_names hu, h]

/-- The buckets of a table with nothing but the names in them. -/
def nameBuckets (t : SymbolTable) : List (ResourceKind × List String) :=
  t.buckets.map fun x => (x.1, x.2.map SymbolEntry.name)

theorem ascending_nameBuckets (ht : t.WellFormed) : Ascending t.nameBuckets := by
  rw [nameBuckets, Ascending, List.pairwise_map]
  exact ht.buckets

theorem lookup_nameBuckets (t : SymbolTable) (kind : ResourceKind) :
    t.nameBuckets.lookup kind = (t.buckets.lookup kind).map (List.map SymbolEntry.name) :=
  lookup_map_pairs (fun _ => List.map SymbolEntry.name) t.buckets kind

theorem names_eq_getD (t : SymbolTable) (kind : ResourceKind) :
    t.names kind = (t.nameBuckets.lookup kind).getD [] := by
  rw [lookup_nameBuckets, names, entries]
  cases t.buckets.lookup kind <;> rfl

/-- A kind without names has no bucket. -/
theorem lookup_nameBuckets_eq (ht : t.WellFormed) (kind : ResourceKind) :
    t.nameBuckets.lookup kind = if t.names kind = [] then none else some (t.names kind) := by
  rw [lookup_nameBuckets, lookup_buckets ht, names]
  by_cases h : t.entries kind = []
  · rw [if_pos h, if_pos (by rw [h, List.map_nil]), Option.map_none]
  · rw [if_neg h, if_neg (mt List.map_eq_nil_iff.1 h), Option.map_some]

theorem nameBuckets_eq_iff (ht : t.WellFormed) (hu : u.WellFormed) :
    t.nameBuckets = u.nameBuckets ↔ t.keys = u.keys := by
  constructor
  · intro h
    ext ⟨kind, name⟩
    rw [← mem_names ht, ← mem_names hu, names_eq_getD, names_eq_getD, h]
  · intro h
    refine (ascending_nameBuckets ht).ext (ascending_nameBuckets hu) fun kind => ?_
    rw [lookup_nameBuckets_eq ht, lookup_nameBuckets_eq hu, names_eq_of_keys ht hu h]

/-- **Tables are the same but for their values** if they have the same keys, and in every
group the same members in the same order. -/
theorem sameKeys_iff (ht : t.WellFormed) (hu : u.WellFormed) :
    t.sameKeys u = true ↔ t.keys = u.keys ∧ ∀ group, t.members? group = u.members? group := by
  have hgroups : t.groups = u.groups ↔ ∀ group, t.members? group = u.members? group := by
    refine ⟨fun h group => ?_, fun h => ht.groups.ext hu.groups h⟩
    rw [members?, members?, h]
  rw [sameKeys, Bool.and_eq_true, beq_iff_eq, beq_iff_eq, hgroups]
  exact and_congr_left' (nameBuckets_eq_iff ht hu)

/-! ## Lists with their new elements behind them -/

variable {m n : List String}

theorem append_new_of_prefix (hn : n.Nodup) (h : m <+: n) :
    m ++ n.filter (· ∉ m) = n ∧ n ++ m.filter (· ∉ n) = n := by
  obtain ⟨rest, rfl⟩ := h
  have hapart := List.disjoint_of_nodup_append hn
  have hm : m.filter (· ∉ m ++ rest) = [] := by
    rw [List.filter_eq_nil_iff]
    intro name hname
    simp [hname]
  have hold : m.filter (· ∉ m) = [] := by
    rw [List.filter_eq_nil_iff]
    intro name hname
    simp [hname]
  have hrest : rest.filter (· ∉ m) = rest := by
    rw [List.filter_eq_self]
    intro name hname
    simpa using fun hmem => hapart hmem hname
  constructor
  · rw [List.filter_append, hold, hrest, List.nil_append]
  · rw [hm, List.append_nil]

/-- **Two lists commute if and only if one begins with the other**, when each is followed by
what is new in the other. -/
theorem append_new_comm_iff (hm : m.Nodup) (hn : n.Nodup) :
    m ++ n.filter (· ∉ m) = n ++ m.filter (· ∉ n) ↔ m <+: n ∨ n <+: m := by
  constructor
  · intro h
    have hfirst : m <+: n ++ m.filter (· ∉ n) := h ▸ List.prefix_append m _
    exact List.prefix_or_prefix_of_prefix hfirst (List.prefix_append n _)
  · rintro (h | h)
    · obtain ⟨hmn, hnm⟩ := append_new_of_prefix hn h
      rw [hmn, hnm]
    · obtain ⟨hnm, hmn⟩ := append_new_of_prefix hm h
      rw [hmn, hnm]

/-- Of the members of a group that only one table has, the order is not in question. -/
theorem joinMembers_comm_iff {known new : Option (List String)}
    (hknown : ∀ names, known = some names → names.Nodup)
    (hnew : ∀ names, new = some names → names.Nodup) :
    joinMembers known new = joinMembers new known ↔
      ∀ m n, known = some m → new = some n → m <+: n ∨ n <+: m := by
  rw [joinMembers_eq_merge hnew, joinMembers_eq_merge hknown]
  cases known with
  | none => cases new <;> simp
  | some m =>
      cases new with
      | none => simp
      | some n =>
          have hcomm := append_new_comm_iff (hknown m rfl) (hnew n rfl)
          rw [Option.merge_some_some, Option.merge_some_some, Option.some.injEq, hcomm]
          constructor
          · rintro h _ _ ⟨⟩ ⟨⟩
            exact h
          · exact fun h => h m n rfl rfl

theorem toFinset_foldl_pushNew (known names : List String) :
    (names.foldl Contribution.pushNew known).toFinset = known.toFinset ∪ names.toFinset := by
  ext name
  have h : name ∈ (firsts (fun n : String => n) known names).map (fun n => n) ↔
      name ∈ known.map (fun n => n) ∨ name ∈ names.map (fun n => n) := mem_map_firsts_iff
  simp only [List.map_id'] at h
  rw [Contribution.foldl_pushNew, List.mem_toFinset, h, Finset.mem_union, List.mem_toFinset,
    List.mem_toFinset]

/-- The members that come together are those of both, in whatever order. -/
theorem toFinset_joinMembers (known new : Option (List String)) :
    (joinMembers known new).map List.toFinset =
      (known.map List.toFinset).merge (· ∪ ·) (new.map List.toFinset) := by
  cases new with
  | none => cases known <;> rfl
  | some names =>
      rw [joinMembers, Option.map_some, toFinset_foldl_pushNew]
      cases known with
      | none => simp
      | some known => rfl

/-! ## Merges in both orders -/

/-- **When the order of a merge does not matter.**  In both orders there are the same keys,
and every group has the same set of members.  The two merges are the same, but for their
values, if and only if in every group that both tables have one of the lists of members
begins with the other. -/
theorem merge_comm_iff (ha : a.Reachable) (hb : b.Reachable) :
    (a.merge b).keys = (b.merge a).keys ∧
    (∀ group, ((a.merge b).members? group).map List.toFinset =
      ((b.merge a).members? group).map List.toFinset) ∧
    ((a.merge b).sameKeys (b.merge a) = true ↔
      ∀ group m n, a.members? group = some m → b.members? group = some n →
        m <+: n ∨ n <+: m) := by
  have hwa := ha.wellFormed
  have hwb := hb.wellFormed
  have hkeys : (a.merge b).keys = (b.merge a).keys := by
    rw [keys_merge hwa hwb, keys_merge hwb hwa, Finset.union_comm]
  refine ⟨hkeys, fun group => ?_, ?_⟩
  · rw [members?_merge hwa hwb, members?_merge hwb hwa, toFinset_joinMembers,
      toFinset_joinMembers]
    cases a.members? group <;> cases b.members? group <;> simp [Finset.union_comm]
  · rw [sameKeys_iff (hwa.merge b) (hwb.merge a), and_iff_right hkeys]
    refine forall_congr' fun group => ?_
    rw [members?_merge hwa hwb, members?_merge hwb hwa]
    exact joinMembers_comm_iff (fun _ h => nodup_of_members? hwa h) fun _ h =>
      nodup_of_members? hwb h

/-- The members `x`, and `y` behind `x`, make the same group in both orders; the members `x`,
and `x` behind `y`, do not, although they are the same members. -/
theorem merge_comm_splitGroup :
    (Collect.scalarAndGroupTable.merge (empty.addMembers "S" ["x", "y"])).sameKeys
      ((empty.addMembers "S" ["x", "y"]).merge Collect.scalarAndGroupTable) = true ∧
    (Collect.scalarAndGroupTable.merge Collect.groupAgainTable).sameKeys
      (Collect.groupAgainTable.merge Collect.scalarAndGroupTable) = false ∧
    ((Collect.scalarAndGroupTable.merge Collect.groupAgainTable).members? "S").map
        List.toFinset =
      ((Collect.groupAgainTable.merge Collect.scalarAndGroupTable).members? "S").map
        List.toFinset := by
  obtain ⟨-, -, hin⟩ := merge_comm_iff reachable_scalarAndGroupTable
    (Reachable.empty.addMembers "S" ["x", "y"])
  obtain ⟨-, hmembers, hout⟩ := merge_comm_iff reachable_scalarAndGroupTable
    reachable_groupAgainTable
  refine ⟨hin.2 fun group m n hm hn => ?_, Bool.eq_false_iff.2 fun h => ?_, hmembers "S"⟩
  · by_cases hgroup : group = "S"
    · subst hgroup
      cases Option.some.inj hm
      cases Option.some.inj hn
      exact Or.inl (by decide)
    · rw [members?, Collect.scalarAndGroupTable, lookup_cons_of_ne hgroup] at hm
      cases hm
  · exact absurd (hout.1 h "S" ["x"] ["y", "x"] rfl rfl) (by decide)

end SymbolTable
end ResourceStubs
