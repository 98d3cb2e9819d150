import Mathlib.Data.Finset.Card
import Mathlib.Data.String.Basic
import ResourceStubs.Proofs.Symbol.OrderedUnion

/-!
# How a table holds its symbols

A symbol is known by its kind and its name, and carries a value that takes no part in
this.  So a table holds a finite set of keys (`keys`), and it holds each of them once:
in the bucket of its kind, at the place of its name.  Counting the symbols is counting
the keys (`size_eq_card_keys`), and finding a symbol is looking through the bucket of
its kind.

`Reachable.representation` says this of every table that the operations make, however
they are mixed.  What a declaration contributes is filed under the kind of its own
symbol, a merge takes both tables apart and files every symbol anew, and a resize
replaces symbols at their places: it changes values only, so the keys stay
(`keys_resize`).
-/

namespace ResourceStubs

/-- What makes two symbols the same: the kind and the name. -/
def SymbolEntry.key (e : SymbolEntry) : ResourceKind × String :=
  (e.kind, e.name)

namespace SymbolTable

/-- The kinds and names for which there is a symbol. -/
def keys (t : SymbolTable) : Finset (ResourceKind × String) :=
  (t.toList.map SymbolEntry.key).toFinset

variable {t u : SymbolTable}

/-- There is a symbol at a key if and only if one is found there. -/
theorem mem_keys (ht : t.WellFormed) {kind : ResourceKind} {name : String} :
    (kind, name) ∈ t.keys ↔ t.contains kind name = true := by
  unfold keys contains
  rw [List.mem_toFinset, List.mem_map, Option.isSome_iff_exists]
  constructor
  · rintro ⟨e, he, hkey⟩
    obtain ⟨rfl, rfl⟩ := Prod.mk.inj hkey
    exact ⟨e, (mem_toList_iff ht).1 he⟩
  · rintro ⟨e, he⟩
    have hkind := kind_of_get? ht he
    have hname := name_of_get? ht he
    refine ⟨e, (mem_toList_iff ht).2 ?_, Prod.ext hkind hname⟩
    rw [hkind, hname, he]

/-! ## Every key once -/

/-- The names of a bucket increase. -/
theorem pairwise_lt_names {bucket : List SymbolEntry} (h : AscendingByName bucket) :
    (bucket.map SymbolEntry.name).Pairwise (· < ·) :=
  ((ascendingByName_iff bucket).1 h).imp compare_lt_iff_lt.1

theorem nodup_key_of_bucket {bucket : List SymbolEntry} (h : AscendingByName bucket) :
    (bucket.map SymbolEntry.key).Nodup := by
  have hnames : (bucket.map SymbolEntry.name).Nodup := (pairwise_lt_names h).imp ne_of_lt
  refine List.Nodup.of_map Prod.snd ?_
  rwa [List.map_map]

/-- **No two symbols have the same kind and name.**  In one bucket the names differ, and
symbols of two buckets differ in their kinds. -/
theorem nodup_key (ht : t.WellFormed) : (t.toList.map SymbolEntry.key).Nodup := by
  show ((t.buckets.flatMap Prod.snd).map SymbolEntry.key).Nodup
  rw [List.map_flatMap, List.nodup_flatMap]
  refine ⟨fun x hx => nodup_key_of_bucket (ht.names x hx), ?_⟩
  have hkinds : t.buckets.Pairwise fun x y => x.1 ≠ y.1 := ht.buckets.imp ne_of_compare_eq_lt
  refine hkinds.imp_of_mem fun {x y} hx hy hne => ?_
  rintro key hkx hky
  obtain ⟨e, he, rfl⟩ := List.mem_map.1 hkx
  obtain ⟨f, hf, hkey⟩ := List.mem_map.1 hky
  refine hne ?_
  calc
    x.1 = e.kind := (ht.kinds x hx e he).symm
    _ = f.kind := (congrArg Prod.fst hkey).symm
    _ = y.1 := ht.kinds y hy f hf

theorem size_eq_card_keys (ht : t.WellFormed) : t.size = t.keys.card := by
  unfold size keys
  rw [List.toFinset_card_of_nodup (nodup_key ht), List.length_map]

/-! ## The operations on keys -/

/-- A symbol brings its key, whether it is new or not. -/
theorem keys_insert (ht : t.WellFormed) (e : SymbolEntry) :
    (t.insert e).keys = Insert.insert e.key t.keys := by
  ext ⟨kind, name⟩
  rw [Finset.mem_insert, mem_keys (ht.insert e), mem_keys ht, contains, get?_insert ht,
    Option.isSome_or, Bool.or_eq_true, Option.isSome_ite, or_comm]
  refine or_congr ?_ Iff.rfl
  rw [SymbolEntry.key, Prod.mk.injEq, eq_comm (a := kind), eq_comm (a := name)]

/-- A merge has the keys of both tables, whatever their order. -/
theorem keys_merge (ht : t.WellFormed) (hu : u.WellFormed) :
    (t.merge u).keys = t.keys ∪ u.keys := by
  ext ⟨kind, name⟩
  rw [Finset.mem_union, mem_keys (ht.merge u), mem_keys ht, mem_keys hu, contains,
    get?_merge ht hu, Option.isSome_or, Bool.or_eq_true]
  rfl

/-- A resize changes no key. -/
theorem keys_resize (ht : t.WellFormed) : t.resize.keys = t.keys := by
  ext ⟨kind, name⟩
  rw [mem_keys ht.resize, mem_keys ht, contains, contains, get?_resize]
  split
  · rw [Option.isSome_map]
  · rfl

/-! ## The representation -/

/-- **How every table holds its symbols.**  A symbol stands under its own kind, each kind
lists its names in increasing order, and no two symbols share kind and name.  A bucket is
there only for symbols, and it is what is listed for its kind; no group has a member
twice.  So the size is the number of keys, and a symbol is found if and only if it is
listed for its kind with that name. -/
theorem Reachable.representation (h : t.Reachable) :
    (∀ kind, ∀ e ∈ t.entries kind, e.kind = kind) ∧
    (∀ kind, ((t.entries kind).map SymbolEntry.name).Pairwise (· < ·)) ∧
    (t.toList.map SymbolEntry.key).Nodup ∧
    (∀ x ∈ t.buckets, x.2 ≠ [] ∧ t.entries x.1 = x.2) ∧
    (∀ x ∈ t.groups, x.2.Nodup) ∧
    (∀ kind name, (kind, name) ∈ t.keys ↔ t.contains kind name = true) ∧
    t.size = t.keys.card ∧
    ∀ kind name e, t.get? kind name = some e ↔ e ∈ t.entries kind ∧ e.name = name := by
  have ht := h.wellFormed
  exact ⟨fun _ _ he => kind_of_mem_entries ht he,
    fun kind => pairwise_lt_names (ascendingByName_entries ht kind),
    nodup_key ht,
    fun x hx => ⟨ht.nonempty x hx, entries_of_mem ht hx⟩,
    ht.members,
    fun _ _ => mem_keys ht,
    size_eq_card_keys ht,
    fun _ _ _ => get?_eq_some_iff ht⟩

/-- Two tables that share a symbol and a group, merged and resized: three keys for the five
symbols that came in. -/
theorem representation_splitGroup :
    ((Collect.scalarAndGroupTable.merge Collect.groupAgainTable).resize.toList.map
      SymbolEntry.key).Nodup ∧
    (Collect.scalarAndGroupTable.merge Collect.groupAgainTable).resize.size =
      (Collect.scalarAndGroupTable.merge Collect.groupAgainTable).resize.keys.card ∧
    (Collect.scalarAndGroupTable.merge Collect.groupAgainTable).resize.size = 3 ∧
    (Collect.scalarAndGroupTable.merge Collect.groupAgainTable).resize.get? .styleable "S" =
      some (.array .styleable "S" (placeholderArray 2)) := by
  obtain ⟨-, -, hkeys, -, -, -, hsize, hget⟩ := Reachable.representation
    (reachable_scalarAndGroupTable.merge reachable_groupAgainTable).resize
  exact ⟨hkeys, hsize, by decide +kernel,
    (hget .styleable "S" _).2 ⟨by decide +kernel, by decide +kernel⟩⟩

end SymbolTable
end ResourceStubs
