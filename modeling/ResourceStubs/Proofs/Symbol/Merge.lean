import ResourceStubs.Proofs.Symbol.TableLaws

/-!
# Merging and resizing tables

A merge is read off `get?` and `members?`: the first table's symbol, or else the
second's, and the second's members behind the first's.

* `get?_merge`, `members?_merge`, `WellFormed.merge`.
* `get?_resize`, `members?_resize`, `WellFormed.resize`.
* `Within` says that a table has nothing new for another, and `merge_eq_self` that
  merging it changes nothing.
-/

namespace ResourceStubs
namespace SymbolTable

variable {t u v : SymbolTable}

/-! ## Many symbols and many groups at once -/

theorem wellFormed_foldl_insert (ht : t.WellFormed) (es : List SymbolEntry) :
    (es.foldl insert t).WellFormed := by
  induction es generalizing t with
  | nil => exact ht
  | cons e es ih => exact ih (ht.insert e)

theorem get?_foldl_insert (ht : t.WellFormed) (es : List SymbolEntry) (kind : ResourceKind)
    (name : String) :
    (es.foldl insert t).get? kind name =
      (t.get? kind name).or (es.find? fun e => e.kind = kind ∧ e.name = name) := by
  induction es generalizing t with
  | nil => rw [List.foldl_nil, List.find?_nil, Option.or_none]
  | cons e es ih =>
      rw [List.foldl_cons, ih (ht.insert e), get?_insert ht, Option.or_assoc]
      congr 1
      by_cases h : e.kind = kind ∧ e.name = name
      · rw [if_pos h, List.find?_cons_of_pos (by simpa using h), Option.some_or]
      · rw [if_neg h, List.find?_cons_of_neg (by simpa using h), Option.none_or]

@[simp] theorem members?_foldl_insert (t : SymbolTable) (es : List SymbolEntry)
    (group : String) : (es.foldl insert t).members? group = t.members? group := by
  induction es generalizing t with
  | nil => rfl
  | cons e es ih => rw [List.foldl_cons, ih, members?_insert]

/-- Adds every group of a list with its members. -/
def addGroups (t : SymbolTable) (groups : List (String × List String)) : SymbolTable :=
  groups.foldl (fun t (group, members) => t.addMembers group members) t

@[simp] theorem addGroups_nil (t : SymbolTable) : t.addGroups [] = t := rfl

@[simp] theorem addGroups_cons (t : SymbolTable) (x : String × List String)
    (groups : List (String × List String)) :
    t.addGroups (x :: groups) = (t.addMembers x.1 x.2).addGroups groups := rfl

theorem merge_eq (t u : SymbolTable) :
    t.merge u = (u.toList.foldl insert t).addGroups u.groups := rfl

theorem wellFormed_addGroups (ht : t.WellFormed) (groups : List (String × List String)) :
    (t.addGroups groups).WellFormed := by
  induction groups generalizing t with
  | nil => exact ht
  | cons x groups ih => exact ih (ht.addMembers _ _)

@[simp] theorem get?_addGroups (t : SymbolTable) (groups : List (String × List String))
    (kind : ResourceKind) (name : String) :
    (t.addGroups groups).get? kind name = t.get? kind name := by
  induction groups generalizing t with
  | nil => rfl
  | cons x groups ih => rw [addGroups_cons, ih, get?_addMembers]

theorem members?_addGroups (ht : t.WellFormed) {groups : List (String × List String)}
    (hg : Ascending groups) (group : String) :
    (t.addGroups groups).members? group = joinMembers (t.members? group) (groups.lookup group) := by
  induction groups generalizing t with
  | nil => rfl
  | cons x groups ih =>
      obtain ⟨hlt, hg'⟩ := ascending_cons.1 hg
      rw [addGroups_cons, ih (ht.addMembers _ _) hg', members?_addMembers ht]
      by_cases h : group = x.1
      · -- an ascending list has the group only once
        rw [if_pos h, h, lookup_eq_none_of_lt hlt, joinMembers_none, List.lookup_cons_self]
      · rw [if_neg h, lookup_cons_of_ne h]

/-! ## Merging -/

theorem WellFormed.merge (ht : t.WellFormed) (u : SymbolTable) : (t.merge u).WellFormed := by
  rw [merge_eq]
  exact wellFormed_addGroups (wellFormed_foldl_insert ht _) _

/-- What is found in a table is found in the list of its symbols. -/
theorem find?_toList (hu : u.WellFormed) (kind : ResourceKind) (name : String) :
    u.toList.find? (fun e => e.kind = kind ∧ e.name = name) = u.get? kind name := by
  cases hf : u.toList.find? fun e => e.kind = kind ∧ e.name = name with
  | some e =>
      have hkey := List.find?_some hf
      simp only [decide_eq_true_eq] at hkey
      obtain ⟨rfl, rfl⟩ := hkey
      exact ((mem_toList_iff hu).1 (List.mem_of_find?_eq_some hf)).symm
  | none =>
      cases hg : u.get? kind name with
      | none => rfl
      | some e =>
          have hk := kind_of_get? hu hg
          have hn := name_of_get? hu hg
          have hmem : e ∈ u.toList := (mem_toList_iff hu).2 (by rw [hk, hn, hg])
          exact absurd (List.find?_eq_none.1 hf e hmem) (by simp [hk, hn])

/-- **A symbol of the first table stays, and the second fills the gaps.** -/
theorem get?_merge (ht : t.WellFormed) (hu : u.WellFormed) (kind : ResourceKind)
    (name : String) :
    (t.merge u).get? kind name = (t.get? kind name).or (u.get? kind name) := by
  rw [merge_eq, get?_addGroups, get?_foldl_insert ht, find?_toList hu]

/-- **The second table's members come behind the first's.** -/
theorem members?_merge (ht : t.WellFormed) (hu : u.WellFormed) (group : String) :
    (t.merge u).members? group = joinMembers (t.members? group) (u.members? group) := by
  rw [merge_eq, members?_addGroups (wellFormed_foldl_insert ht _) hu.groups,
    members?_foldl_insert]
  rfl

/-! ## Tables that have nothing new -/

/-- Every symbol and every member of `u` has its key in `t`. -/
structure Within (u t : SymbolTable) : Prop where
  symbols : ∀ kind name, (u.get? kind name).isSome → (t.get? kind name).isSome
  members : ∀ group names, u.members? group = some names →
    ∃ known, t.members? group = some known ∧ names ⊆ known

theorem foldl_pushNew_eq_self {known names : List String} (h : names ⊆ known) :
    names.foldl Contribution.pushNew known = known := by
  rw [Contribution.foldl_pushNew]
  exact firsts_eq_self fun x hx => by simpa using h hx

theorem subset_foldl_pushNew (known names : List String) :
    names ⊆ names.foldl Contribution.pushNew known := by
  intro name hname
  have h : name ∈ (firsts (fun n : String => n) known names).map fun n => n :=
    mem_map_firsts_iff.2 (Or.inr (by rwa [List.map_id']))
  rw [Contribution.foldl_pushNew]
  rwa [List.map_id'] at h

theorem left_subset_foldl_pushNew (known names : List String) :
    known ⊆ names.foldl Contribution.pushNew known := by
  intro name hname
  rw [Contribution.foldl_pushNew]
  exact mem_firsts_of_mem names hname

/-- **Merging a table that has nothing new changes nothing.** -/
theorem merge_eq_self (ht : t.WellFormed) (hu : u.WellFormed) (h : u.Within t) :
    t.merge u = t := by
  refine (ht.merge u).ext ht (fun kind name => ?_) fun group => ?_
  · rw [get?_merge ht hu]
    cases hg : u.get? kind name with
    | none => exact Option.or_none
    | some e => exact Option.or_of_isSome (h.symbols kind name (by rw [hg]; rfl))
  · rw [members?_merge ht hu]
    cases hm : u.members? group with
    | none => rfl
    | some names =>
        obtain ⟨known, hknown, hsub⟩ := h.members group names hm
        rw [hknown]
        exact congrArg some (foldl_pushNew_eq_self hsub)

theorem within_merge_right (ht : t.WellFormed) (hu : u.WellFormed) : u.Within (t.merge u) where
  symbols kind name h := by
    rw [get?_merge ht hu, Option.isSome_or, h, Bool.or_true]
  members group names h := by
    refine ⟨_, ?_, subset_foldl_pushNew ((t.members? group).getD []) names⟩
    rw [members?_merge ht hu, h]
    rfl

/-- What has nothing new has nothing new after a merge either. -/
theorem Within.merge (h : v.Within t) (ht : t.WellFormed) (hu : u.WellFormed) :
    v.Within (t.merge u) where
  symbols kind name hv := by
    rw [get?_merge ht hu, Option.isSome_or, h.symbols kind name hv, Bool.true_or]
  members group names hv := by
    obtain ⟨known, hknown, hsub⟩ := h.members group names hv
    rw [members?_merge ht hu, hknown]
    cases u.members? group with
    | none => exact ⟨known, rfl, hsub⟩
    | some more =>
        exact ⟨_, rfl, fun x hx => left_subset_foldl_pushNew known more (hsub hx)⟩

/-- **Merging the same table twice is merging it once.** -/
theorem merge_merge_self (ht : t.WellFormed) (hu : u.WellFormed) :
    (t.merge u).merge u = t.merge u :=
  merge_eq_self (ht.merge u) hu (within_merge_right ht hu)

/-! ## Resizing -/

@[simp] theorem members?_resize (t : SymbolTable) (group : String) :
    t.resize.members? group = t.members? group := rfl

@[simp] theorem name_resizeEntry (groups : List (String × List String)) (e : SymbolEntry) :
    (resizeEntry groups e).name = e.name := by
  rw [resizeEntry]
  split <;> rfl

theorem kind_resizeEntry (groups : List (String × List String)) {e : SymbolEntry}
    (h : e.kind = .styleable) : (resizeEntry groups e).kind = .styleable := by
  rw [resizeEntry]
  split
  · rfl
  · exact h

/-- What a resize makes of the bucket of a kind. -/
def resizeBucket (groups : List (String × List String)) (kind : ResourceKind)
    (bucket : List SymbolEntry) : List SymbolEntry :=
  if kind = .styleable then bucket.map (resizeEntry groups) else bucket

theorem resize_buckets (t : SymbolTable) :
    t.resize.buckets = t.buckets.map fun x => (x.1, resizeBucket t.groups x.1 x.2) := rfl

theorem map_name_resizeBucket (groups : List (String × List String)) (kind : ResourceKind)
    (bucket : List SymbolEntry) :
    (resizeBucket groups kind bucket).map SymbolEntry.name = bucket.map SymbolEntry.name := by
  rw [resizeBucket]
  split
  · rw [List.map_map]
    exact List.map_congr_left fun e _ => name_resizeEntry groups e
  · rfl

theorem ascendingByName_iff (bucket : List SymbolEntry) :
    AscendingByName bucket ↔
      (bucket.map SymbolEntry.name).Pairwise fun m n => compare m n = .lt := by
  rw [AscendingByName, Ascending, keyed, List.pairwise_map, List.pairwise_map]

theorem kind_of_mem_resizeBucket {groups : List (String × List String)} {kind : ResourceKind}
    {bucket : List SymbolEntry} (h : ∀ e ∈ bucket, e.kind = kind) {e : SymbolEntry}
    (he : e ∈ resizeBucket groups kind bucket) : e.kind = kind := by
  rw [resizeBucket] at he
  split at he
  · rename_i hkind
    obtain ⟨x, hx, rfl⟩ := List.mem_map.1 he
    rw [hkind]
    exact kind_resizeEntry groups ((h x hx).trans hkind)
  · exact h e he

theorem WellFormed.resize (ht : t.WellFormed) : t.resize.WellFormed where
  buckets := by
    rw [resize_buckets, Ascending, List.pairwise_map]
    exact ht.buckets
  names := by
    intro x hx
    obtain ⟨y, hy, rfl⟩ := List.mem_map.1 hx
    have hnames := ht.names y hy
    rw [ascendingByName_iff] at hnames ⊢
    rw [← map_name_resizeBucket t.groups y.1] at hnames
    exact hnames
  kinds := by
    intro x hx
    obtain ⟨y, hy, rfl⟩ := List.mem_map.1 hx
    exact fun e he => kind_of_mem_resizeBucket (ht.kinds y hy) he
  nonempty := by
    intro x hx
    obtain ⟨y, hy, rfl⟩ := List.mem_map.1 hx
    intro hnil
    have hmap : (resizeBucket t.groups y.1 y.2).map SymbolEntry.name = [] := by
      rw [show resizeBucket t.groups y.1 y.2 = [] from hnil, List.map_nil]
    rw [map_name_resizeBucket, List.map_eq_nil_iff] at hmap
    exact ht.nonempty y hy hmap
  groups := ht.groups
  members := ht.members

theorem entries_resize (t : SymbolTable) (kind : ResourceKind) :
    t.resize.entries kind = resizeBucket t.groups kind (t.entries kind) := by
  have hnil : resizeBucket t.groups kind [] = [] := by
    rw [resizeBucket]
    split <;> rfl
  rw [entries, entries, resize_buckets, lookup_map_pairs]
  cases t.buckets.lookup kind with
  | none => exact hnil.symm
  | some bucket => rfl

/-- **A resize changes the arrays of groups and nothing else.** -/
theorem get?_resize (t : SymbolTable) (kind : ResourceKind) (name : String) :
    t.resize.get? kind name =
      if kind = .styleable then (t.get? kind name).map (resizeEntry t.groups)
      else t.get? kind name := by
  rw [get?, entries_resize, resizeBucket]
  split
  · rw [List.find?_map]
    congr 1
    exact congrArg (List.find? · _) (funext fun e => by simp)
  · rfl

end SymbolTable
end ResourceStubs
