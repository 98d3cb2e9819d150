import ResourceStubs.Proofs.Symbol.TableLaws
import ResourceStubs.Symbol.RClass

/-!
# Where the fields of the class `R` come from

A nested class is a list of fields, and a field does not say which symbol it was made
for: the index of a member and a scalar look alike.  Here the same list is made again
with its origin.  A `Block` is what one symbol leads to, its own field and behind it the
fields of the members that are not left out, each with its position.

* `fields_eq_flatMap_blocks`: the fields are those of the blocks, one block after the
  other.
* `position_emitted`: a member is written with the place that it has in its group.
* `place_of_mem_members`: the same of the members in a block.
* `sublist_blocks`: the blocks belong to symbols of the kind, each to another one.
-/

namespace ResourceStubs
namespace RClass

open Java

/-- What one symbol leads to: the symbol, and the members that get a field, with their
positions. -/
structure Block where
  entry : SymbolEntry
  members : List (Nat × String)
  deriving DecidableEq, Repr

namespace Block

/-- The field of the symbol itself. -/
def own (b : Block) : Field :=
  ownField b.entry

/-- The name of the field of a member. -/
def memberName (group member : String) : String :=
  group ++ "_" ++ identifier member

/-- The field of a member at a position. -/
def memberField (group : String) (x : Nat × String) : Field :=
  ⟨"int", memberName group x.2, toString x.1⟩

/-- The fields of the members. -/
def memberFields (b : Block) : List Field :=
  b.members.map (memberField (identifier b.entry.name))

/-- The fields of the block: first the symbol's own, then those of its members. -/
def fields (b : Block) : List Field :=
  b.own :: b.memberFields

end Block

/-- The members from a position on that get a field, with their positions. -/
def emitted (group : String) (taken : List String) (position : Nat) :
    List String → List (Nat × String)
  | [] => []
  | member :: rest =>
      if Block.memberName group member ∈ taken then emitted group taken (position + 1) rest
      else (position, member) ::
        emitted group (Block.memberName group member :: taken) (position + 1) rest

/-- The block of a symbol. -/
def blockOf (t : SymbolTable) (taken : List String) (e : SymbolEntry) : Block :=
  ⟨e, if e.kind = .styleable then
      emitted (identifier e.name) taken 0 ((t.members? e.name).getD [])
    else []⟩

/-- The blocks of symbols, less those whose name is taken. -/
def blocksFrom (t : SymbolTable) (taken : List String) : List SymbolEntry → List Block
  | [] => []
  | e :: rest =>
      if (ownField e).name ∈ taken then blocksFrom t taken rest
      else
        let b := blockOf t ((ownField e).name :: taken) e
        b :: blocksFrom t (b.memberFields.map Field.name ++ b.own.name :: taken) rest

/-- The blocks of the nested class of a kind. -/
def blocks (t : SymbolTable) (kind : ResourceKind) : List Block :=
  blocksFrom t [] (t.entries kind)

/-! ## The fields are those of the blocks -/

theorem memberFields_eq (group : String) (taken : List String) (position : Nat)
    (members : List String) :
    memberFields group taken position members =
      (emitted group taken position members).map (Block.memberField group) := by
  induction members generalizing taken position with
  | nil => rfl
  | cons member rest ih =>
      rw [memberFields, emitted]
      by_cases h : Block.memberName group member ∈ taken
      · rw [if_pos h]
        exact (if_pos h).trans (ih taken (position + 1))
      · rw [if_neg h, List.map_cons, ← ih]
        exact if_neg h

theorem membersOf_eq (t : SymbolTable) (taken : List String) (e : SymbolEntry) :
    membersOf t taken e = (blockOf t taken e).memberFields := by
  rw [membersOf, Block.memberFields, blockOf]
  by_cases h : e.kind = .styleable
  · rw [if_pos h, if_pos h, memberFields_eq]
  · rw [if_neg h, if_neg h, List.map_nil]

theorem fieldsFrom_eq (t : SymbolTable) (taken : List String) (es : List SymbolEntry) :
    fieldsFrom t taken es = (blocksFrom t taken es).flatMap Block.fields := by
  induction es generalizing taken with
  | nil => rfl
  | cons e es ih =>
      rw [fieldsFrom, blocksFrom]
      by_cases h : (ownField e).name ∈ taken
      · rw [if_pos h, if_pos h, ih]
      · rw [if_neg h, if_neg h]
        show ownField e :: membersOf t _ e ++ fieldsFrom t _ es = List.flatMap Block.fields (_ :: _)
        rw [List.flatMap_cons, ← ih, membersOf_eq]
        rfl

/-- **The fields of a kind are those of its blocks, one block after the other.** -/
theorem fields_eq_flatMap_blocks (t : SymbolTable) (kind : ResourceKind) :
    fields t kind = (blocks t kind).flatMap Block.fields :=
  fieldsFrom_eq t [] (t.entries kind)

/-! ## Positions -/

theorem le_of_mem_emitted {group : String} {taken : List String} {position : Nat}
    {members : List String} {x : Nat × String} (hx : x ∈ emitted group taken position members) :
    position ≤ x.1 := by
  induction members generalizing taken position with
  | nil => exact absurd hx List.not_mem_nil
  | cons member rest ih =>
      rw [emitted] at hx
      split at hx
      · have := ih hx
        omega
      · rcases List.mem_cons.1 hx with rfl | hx
        · exact Nat.le_refl position
        · have := ih hx
          omega

/-- **A member is written with the place that it has in its group.** -/
theorem position_emitted {group : String} {taken : List String} {position : Nat}
    {members : List String} {x : Nat × String} (hx : x ∈ emitted group taken position members) :
    members[x.1 - position]? = some x.2 := by
  induction members generalizing taken position with
  | nil => exact absurd hx List.not_mem_nil
  | cons member rest ih =>
      -- behind the first member, everything stands one place further on
      have hrest : ∀ {taken' : List String}, x ∈ emitted group taken' (position + 1) rest →
          (member :: rest)[x.1 - position]? = some x.2 := by
        intro taken' hx'
        have hle := le_of_mem_emitted hx'
        have hsub : x.1 - position = x.1 - (position + 1) + 1 := by omega
        rw [hsub, List.getElem?_cons_succ]
        exact ih hx'
      rw [emitted] at hx
      split at hx
      · exact hrest hx
      · rcases List.mem_cons.1 hx with rfl | hx
        · rw [Nat.sub_self, List.getElem?_cons_zero]
        · exact hrest hx

/-- Only a group has members in its block, and each of them is at its place in the group. -/
theorem place_of_mem_members {t : SymbolTable} {taken : List String} {e : SymbolEntry}
    {x : Nat × String} (hx : x ∈ (blockOf t taken e).members) :
    e.kind = .styleable ∧
      ∃ members, t.members? e.name = some members ∧ members[x.1]? = some x.2 := by
  rw [blockOf] at hx
  by_cases hkind : e.kind = .styleable
  · rw [if_pos hkind] at hx
    have hplace := position_emitted hx
    rw [Nat.sub_zero] at hplace
    cases hmembers : t.members? e.name with
    | none =>
        rw [hmembers, Option.getD_none, List.getElem?_nil] at hplace
        exact absurd hplace (by simp)
    | some members =>
        rw [hmembers, Option.getD_some] at hplace
        exact ⟨hkind, members, rfl, hplace⟩
  · rw [if_neg hkind] at hx
    exact absurd hx List.not_mem_nil

/-- No position is written twice. -/
theorem nodup_emitted (group : String) (taken : List String) (position : Nat)
    (members : List String) : ((emitted group taken position members).map Prod.fst).Nodup := by
  induction members generalizing taken position with
  | nil => exact List.nodup_nil
  | cons member rest ih =>
      rw [emitted]
      split
      · exact ih _ _
      · rw [List.map_cons, List.nodup_cons]
        refine ⟨fun hmem => ?_, ih _ _⟩
        obtain ⟨x, hx, hpos⟩ := List.mem_map.1 hmem
        have := le_of_mem_emitted hx
        omega

/-! ## The symbols that have a block -/

theorem blockOf_of_mem {t : SymbolTable} {taken : List String} {es : List SymbolEntry} {b : Block}
    (hb : b ∈ blocksFrom t taken es) : ∃ taken' e, e ∈ es ∧ b = blockOf t taken' e := by
  induction es generalizing taken with
  | nil => exact absurd hb List.not_mem_nil
  | cons e es ih =>
      have hrest : ∀ {taken' : List String}, b ∈ blocksFrom t taken' es →
          ∃ taken' e', e' ∈ e :: es ∧ b = blockOf t taken' e' := by
        intro taken' hb'
        obtain ⟨taken'', e', he', h⟩ := ih hb'
        exact ⟨taken'', e', List.mem_cons_of_mem _ he', h⟩
      rw [blocksFrom] at hb
      split at hb
      · exact hrest hb
      · rcases List.mem_cons.1 hb with rfl | hb
        · exact ⟨_, e, List.mem_cons_self, rfl⟩
        · exact hrest hb

theorem sublist_blocksFrom (t : SymbolTable) (taken : List String) (es : List SymbolEntry) :
    ((blocksFrom t taken es).map Block.entry).Sublist es := by
  induction es generalizing taken with
  | nil => exact List.Sublist.refl []
  | cons e es ih =>
      rw [blocksFrom]
      split
      · exact (ih taken).cons e
      · exact (ih _).cons_cons e

/-- The blocks stand in the order of their symbols, and no symbol has two. -/
theorem sublist_blocks (t : SymbolTable) (kind : ResourceKind) :
    ((blocks t kind).map Block.entry).Sublist (t.entries kind) :=
  sublist_blocksFrom t [] (t.entries kind)

theorem nodup_name_entries {t : SymbolTable} (ht : t.WellFormed) (kind : ResourceKind) :
    ((t.entries kind).map SymbolEntry.name).Nodup := by
  have hasc := SymbolTable.ascendingByName_entries ht kind
  rw [AscendingByName, Ascending, keyed, List.pairwise_map] at hasc
  rw [List.Nodup, List.pairwise_map]
  exact hasc.imp fun h => ne_of_compare_eq_lt h

end RClass
end ResourceStubs
