import Mathlib.Data.List.Sort
import ResourceStubs.Proofs.Symbol.TakenNames

/-!
# The names that the class `R` declares

A symbol is left out when its name is taken, so the class has fewer fields than the table
has symbols.  But a name is only ever taken by a field that bears it.  So whoever is left
out finds its name declared all the same, if by another field, and the class has every name
that the symbols ask for.

Nothing else is declared: a block has the name of its symbol, and, when the symbol is a
group, the names of the members behind it.

* `kinds_eq`: there is a nested class for every kind with a symbol, in the order of the
  kinds.
* `identifier_mem_names`: every symbol finds its name declared.
* `exists_of_mem_names`: every declared name is that of a symbol, or of a group and a
  member.
* `declares_each_name_once`: the three of them, with `nodup_names_fields`, for the source of
  every table.
-/

namespace ResourceStubs
namespace RClass

open Java

variable {t : SymbolTable} {kind : ResourceKind} {e : SymbolEntry}

/-! ## The kinds that have a nested class -/

theorem mem_kinds_iff (ht : t.WellFormed) : kind ∈ kinds t ↔ t.entries kind ≠ [] := by
  constructor
  · intro h
    obtain ⟨x, hx, rfl⟩ := List.mem_map.1 h
    obtain ⟨hbucket, -⟩ := List.mem_filter.1 hx
    rw [SymbolTable.entries_of_mem ht hbucket]
    exact ht.nonempty x hbucket
  · intro h
    obtain ⟨e, he⟩ := List.exists_mem_of_ne_nil _ h
    exact mem_kinds_of_mem_entries ht he

/-- Kinds are listed in the order of their names. -/
theorem pairwise_lt_all : (ResourceKind.all.map ResourceKind.name).Pairwise (· < ·) := by
  decide

/-- **There is a nested class for every kind with a symbol**, in the order of the kinds. -/
theorem kinds_eq (ht : t.WellFormed) :
    kinds t = ResourceKind.all.filter fun kind => !(t.entries kind).isEmpty := by
  have hkinds : ((kinds t).map ResourceKind.name).Pairwise (· < ·) := by
    have hbuckets : (t.buckets.map fun x => x.1.name).Pairwise (· < ·) := by
      refine List.pairwise_map.2 (ht.buckets.imp fun {x y} h => ?_)
      have hname : compare x.1.name y.1.name = .lt := h
      exact compare_lt_iff_lt.1 hname
    refine hbuckets.sublist ?_
    rw [kinds, List.map_map]
    exact List.filter_sublist.map _
  have hall := pairwise_lt_all.sublist
    ((List.filter_sublist (p := fun kind => !(t.entries kind).isEmpty)).map ResourceKind.name)
  refine List.map_injective_iff.2 (fun _ _ => ResourceKind.name_injective)
    (hkinds.eq_of_mem_iff hall fun name => ?_)
  rw [List.mem_map, List.mem_map]
  refine exists_congr fun kind => and_congr_left fun _ => ?_
  rw [mem_kinds_iff ht, List.mem_filter, and_iff_right kind.mem_all, Bool.not_eq_true',
    ← Bool.not_eq_true, List.isEmpty_iff]

/-! ## No symbol misses its name -/

/-- A symbol finds its name among those that were taken before, or those of the blocks. -/
theorem identifier_mem_taken_or_names (taken : List String) {es : List SymbolEntry}
    (he : e ∈ es) :
    identifier e.name ∈ taken ∨
      identifier e.name ∈ (blocksFrom t taken es).flatMap Block.names := by
  induction es generalizing taken with
  | nil => exact absurd he List.not_mem_nil
  | cons x es ih =>
      by_cases h : identifier x.name ∈ taken
      · rw [blocksFrom_of_mem h]
        rcases List.mem_cons.1 he with rfl | he
        · exact Or.inl h
        · exact ih taken he
      · rw [blocksFrom_of_notMem h, List.flatMap_cons, List.mem_append]
        rcases List.mem_cons.1 he with rfl | he
        · right
          left
          rw [Block.names_eq]
          exact List.mem_cons_self
        · -- what the block of `x` has taken is among the names of the blocks
          rcases ih _ he with htaken | hnames
          · rcases List.mem_append.1 htaken with hown | htaken
            · exact Or.inr (Or.inl hown)
            · exact Or.inl htaken
          · exact Or.inr (Or.inr hnames)

/-- **Every symbol finds its name declared**, by its own field or by another. -/
theorem identifier_mem_names (he : e ∈ t.entries kind) :
    identifier e.name ∈ (fields t kind).map Field.name := by
  rw [names_fields_eq]
  exact (identifier_mem_taken_or_names [] he).resolve_left List.not_mem_nil

/-! ## Where a name comes from -/

/-- **Nothing else is declared** than names of symbols, and names of members behind groups. -/
theorem exists_of_mem_names (ht : t.WellFormed) {name : String}
    (h : name ∈ (fields t kind).map Field.name) :
    (∃ e ∈ t.entries kind, name = identifier e.name) ∨
      kind = .styleable ∧ ∃ e ∈ t.entries kind, ∃ members, t.members? e.name = some members ∧
        ∃ m ∈ members, name = identifier e.name ++ "_" ++ identifier m := by
  rw [names_fields_eq] at h
  obtain ⟨b, hb, hname⟩ := List.mem_flatMap.1 h
  obtain ⟨taken, e, he, rfl⟩ := blockOf_of_mem hb
  rw [Block.names_eq] at hname
  rcases List.mem_cons.1 hname with rfl | hname
  · exact Or.inl ⟨e, he, rfl⟩
  · obtain ⟨x, hx, rfl⟩ := List.mem_map.1 hname
    obtain ⟨hkind, members, hmembers, hplace⟩ := place_of_mem_members hx
    have hk : kind = .styleable := (SymbolTable.kind_of_mem_entries ht he).symm.trans hkind
    exact Or.inr ⟨hk, e, he, members, hmembers, x.2, List.mem_of_getElem? hplace, rfl⟩

/-- **The class `R` declares each name once and misses no symbol.**  The source has a nested
class for every kind with a symbol, in the order of the kinds, and no other.  In the class
of a kind no name is declared twice, every symbol of the kind finds its name declared, and
every declared name is that of a symbol of the kind or, among the styleables, that of a
group with a symbol and one of its members. -/
theorem declares_each_name_once (ht : t.Reachable) :
    (∀ package, (render package t).body =
      classText ((ResourceKind.all.filter fun kind => !(t.entries kind).isEmpty).map fun kind =>
        nestedClass kind (fields t kind))) ∧
    ∀ kind,
      ((fields t kind).map Field.name).Nodup ∧
      (∀ e ∈ t.entries kind, ∃ f ∈ fields t kind, f.name = identifier e.name) ∧
      ∀ f ∈ fields t kind,
        (∃ e ∈ t.entries kind, f.name = identifier e.name) ∨
        kind = .styleable ∧ ∃ e ∈ t.entries kind, ∃ members, t.members? e.name = some members ∧
          ∃ m ∈ members, f.name = identifier e.name ++ "_" ++ identifier m := by
  have hwf := ht.wellFormed
  refine ⟨fun package => ?_, fun kind => ⟨nodup_names_fields t kind, fun e he => ?_,
    fun f hf => exists_of_mem_names hwf (List.mem_map_of_mem hf)⟩⟩
  · rw [body_render, kinds_eq hwf]
  · exact List.mem_map.1 (identifier_mem_names he)

/-! ## Names that become one -/

/-- Two styles whose names become one, a group with two members whose names become one, and
a group with the name of such a member. -/
def lookalikeTable : SymbolTable :=
  ⟨[(.style, [.scalar .style "Theme.App", .scalar .style "Theme_App"]),
    (.styleable,
      [.array .styleable "S" "\x7b 0, 0 \x7d", .array .styleable "S_a_b" "\x7b 0 \x7d"])],
    [("S", ["a.b", "a:b"]), ("S_a_b", ["c"])]⟩

theorem reachable_lookalikeTable : lookalikeTable.Reachable := by
  have hmade : (((SymbolTable.empty.insert (.scalar .style "Theme.App")).insert
      (.scalar .style "Theme_App")).contribute (.styleable (.group "S" ["a.b", "a:b"]))).contribute
        (.styleable (.group "S_a_b" ["c"])) = lookalikeTable := by decide
  rw [← hmade]
  exact (((SymbolTable.Reachable.empty.insert _).insert _).contribute _).contribute _

/-- The style `Theme_App` and the group `S_a_b` find their names declared by others, and all
names differ. -/
theorem declares_each_name_once_lookalikes :
    lookalikeTable.Reachable ∧
    (render "p" lookalikeTable).body =
      "public final class R \x7b\n  public static final class style \x7b\n" ++
        "    public static int Theme_App = 0;\n  \x7d\n\n" ++
        "  public static final class styleable \x7b\n" ++
        "    public static int[] S = \x7b 0, 0 \x7d;\n    public static int S_a_b = 0;\n" ++
        "  \x7d\n\x7d\n" ∧
    (fields lookalikeTable .style).map Field.name = ["Theme_App"] ∧
    (∃ f ∈ fields lookalikeTable .style, f.name = "Theme_App") ∧
    (fields lookalikeTable .styleable).map Field.name = ["S", "S_a_b"] ∧
    (∃ f ∈ fields lookalikeTable .styleable, f.name = "S_a_b") ∧
    ((fields lookalikeTable .styleable).map Field.name).Nodup := by
  obtain ⟨hsource, hclasses⟩ := declares_each_name_once reachable_lookalikeTable
  obtain ⟨-, hstyles, -⟩ := hclasses .style
  obtain ⟨hnodup, hgroups, -⟩ := hclasses .styleable
  exact ⟨reachable_lookalikeTable, (hsource "p").trans (by decide +kernel), by decide,
    hstyles (.scalar .style "Theme_App") (by decide), by decide,
    hgroups (.array .styleable "S_a_b" "\x7b 0 \x7d") (by decide), hnodup⟩

end RClass
end ResourceStubs
