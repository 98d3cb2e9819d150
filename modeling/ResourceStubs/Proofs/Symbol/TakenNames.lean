import ResourceStubs.Proofs.Symbol.DependencyLines
import ResourceStubs.Proofs.Symbol.FieldBlocks
import ResourceStubs.Proofs.Symbol.RClassText
import ResourceStubs.Proofs.Symbol.Representation

/-!
# Whose field gives way

The arrays of the groups and the fields of their members stand in one class, and what a
name stands for is settled by who comes first.  The symbols come in the order of their
names, each with its members behind it.  So the group `S_x` comes too late if `S` has a
member `x`: its array is left out, with all its members.

Let the names before a symbol be those of the fields that symbols with smaller names have
led to (`namesBefore`).

* `mem_blocks_iff`: a symbol has its field if and only if the name is none of those before
  it.
* `mem_emitted_iff`: a member of a group that has its field has one as well, if and only if
  the name is none of those before the group, and none that a member further up in the
  group has.
* `nodup_names_fields`: no name is declared twice.
* `fields_of_groups`: what this says of the source of a collected table.
-/

namespace ResourceStubs
namespace RClass

open Java

variable {t : SymbolTable}

/-! ## The members that get a field -/

/-- The name of a member is longer than that of its group. -/
theorem memberName_ne (group member : String) : Block.memberName group member ≠ group := by
  intro h
  have hlength := congrArg (fun s : String => s.toList.length) h
  simp [Block.memberName] at hlength

theorem memberName_inj {group m n : String} :
    Block.memberName group m = Block.memberName group n ↔ identifier m = identifier n := by
  rw [Block.memberName, Block.memberName, String.append_assoc, String.append_assoc,
    String.append_right_inj, String.append_right_inj]

/-- **A member gets a field if and only if its name is new**, to what is taken and to the
members in front of it. -/
theorem mem_emitted_iff {group : String} {taken : List String} {position : Nat}
    {members : List String} {x : Nat × String} :
    x ∈ emitted group taken position members ↔
      ∃ i, x.1 = position + i ∧ members[i]? = some x.2 ∧ Block.memberName group x.2 ∉ taken ∧
        ∀ m ∈ members.take i, identifier m ≠ identifier x.2 := by
  induction members generalizing taken position with
  | nil => simp [emitted]
  | cons member rest ih =>
      rw [emitted]
      by_cases h : Block.memberName group member ∈ taken
      · rw [if_pos h, ih]
        constructor
        · rintro ⟨i, hposition, hi, hnew, hfirst⟩
          refine ⟨i + 1, by omega, hi, hnew, ?_⟩
          rw [List.take_succ_cons, List.forall_mem_cons]
          exact ⟨fun heq => hnew (memberName_inj.2 heq ▸ h), hfirst⟩
        · rintro ⟨_ | i, hposition, hi, hnew, hfirst⟩
          · rw [List.getElem?_cons_zero, Option.some.injEq] at hi
            exact absurd (hi ▸ h) hnew
          · rw [List.take_succ_cons, List.forall_mem_cons] at hfirst
            exact ⟨i, by omega, hi, hnew, hfirst.2⟩
      · rw [if_neg h, List.mem_cons, ih]
        constructor
        · rintro (rfl | ⟨i, hposition, hi, hnew, hfirst⟩)
          · exact ⟨0, rfl, rfl, h, by simp⟩
          · rw [List.mem_cons, not_or] at hnew
            refine ⟨i + 1, by omega, hi, hnew.2, ?_⟩
            rw [List.take_succ_cons, List.forall_mem_cons]
            exact ⟨fun heq => hnew.1 (memberName_inj.2 heq.symm), hfirst⟩
        · rintro ⟨_ | i, hposition, hi, hnew, hfirst⟩
          · rw [List.getElem?_cons_zero, Option.some.injEq] at hi
            exact Or.inl (Prod.ext hposition hi.symm)
          · rw [List.take_succ_cons, List.forall_mem_cons] at hfirst
            refine Or.inr ⟨i, by omega, hi, ?_, hfirst.2⟩
            rw [List.mem_cons, not_or]
            exact ⟨fun heq => hfirst.1 (memberName_inj.1 heq.symm), hnew⟩

/-- The members that get a field have different names. -/
theorem nodup_names_emitted (group : String) (taken : List String) (position : Nat)
    (members : List String) :
    ((emitted group taken position members).map fun x => Block.memberName group x.2).Nodup := by
  induction members generalizing taken position with
  | nil => exact List.nodup_nil
  | cons member rest ih =>
      rw [emitted]
      split
      · exact ih _ _
      · rw [List.map_cons, List.nodup_cons]
        refine ⟨fun hmem => ?_, ih _ _⟩
        obtain ⟨x, hx, hname⟩ := List.mem_map.1 hmem
        obtain ⟨-, -, -, hnew, -⟩ := mem_emitted_iff.1 hx
        exact hnew (hname ▸ List.mem_cons_self)

/-! ## The names that are taken -/

/-- The names of the fields of a block. -/
def Block.names (b : Block) : List String :=
  b.fields.map Field.name

/-- The names of the fields that the symbols with smaller names have led to. -/
def namesBefore (t : SymbolTable) (kind : ResourceKind) (name : String) : List String :=
  ((blocks t kind).filter fun b => b.entry.name < name).flatMap Block.names

theorem ownField_name (e : SymbolEntry) : (ownField e).name = identifier e.name := by
  rw [ownField]
  split <;> rfl

theorem Block.names_eq (b : Block) :
    b.names = identifier b.entry.name ::
      b.members.map fun x => Block.memberName (identifier b.entry.name) x.2 := by
  rw [Block.names, Block.fields, List.map_cons, Block.own, ownField_name, Block.memberFields,
    List.map_map]
  rfl

theorem names_fields_eq (t : SymbolTable) (kind : ResourceKind) :
    (fields t kind).map Field.name = (blocks t kind).flatMap Block.names := by
  rw [fields_eq_flatMap_blocks, List.map_flatMap]
  rfl

theorem blocksFrom_of_mem {taken : List String} {e : SymbolEntry} {es : List SymbolEntry}
    (h : identifier e.name ∈ taken) : blocksFrom t taken (e :: es) = blocksFrom t taken es := by
  rw [blocksFrom, ownField_name, if_pos h]

variable {taken taken' : List String}

/-- What is taken counts as a set. -/
theorem emitted_congr (h : ∀ name, name ∈ taken ↔ name ∈ taken') (group : String)
    (position : Nat) (members : List String) :
    emitted group taken position members = emitted group taken' position members := by
  induction members generalizing taken taken' position with
  | nil => rfl
  | cons member rest ih =>
      have hcons : ∀ name, name ∈ Block.memberName group member :: taken ↔
          name ∈ Block.memberName group member :: taken' := by
        intro name
        rw [List.mem_cons, List.mem_cons, h]
      rw [emitted, emitted, ih h, ih hcons]
      exact if_congr (h _) rfl rfl

theorem blockOf_congr (h : ∀ name, name ∈ taken ↔ name ∈ taken') (e : SymbolEntry) :
    blockOf t taken e = blockOf t taken' e := by
  rw [blockOf, blockOf, emitted_congr h]

theorem blocksFrom_congr (h : ∀ name, name ∈ taken ↔ name ∈ taken') (es : List SymbolEntry) :
    blocksFrom t taken es = blocksFrom t taken' es := by
  induction es generalizing taken taken' with
  | nil => rfl
  | cons e es ih =>
      have hown : ∀ name, name ∈ (ownField e).name :: taken ↔
          name ∈ (ownField e).name :: taken' := by
        intro name
        rw [List.mem_cons, List.mem_cons, h]
      rw [blocksFrom, blocksFrom, ih h, blockOf_congr hown]
      refine if_congr (h _) rfl (congrArg _ (ih fun name => ?_))
      rw [List.mem_append, List.mem_append, List.mem_cons, List.mem_cons, h]

/-- Behind a symbol that has a block, the names of the block are taken. -/
theorem blocksFrom_of_notMem {e : SymbolEntry} (h : identifier e.name ∉ taken)
    (es : List SymbolEntry) :
    blocksFrom t taken (e :: es) = blockOf t (identifier e.name :: taken) e ::
      blocksFrom t ((blockOf t (identifier e.name :: taken) e).names ++ taken) es := by
  rw [blocksFrom, ownField_name, if_neg h]
  refine congrArg _ (blocksFrom_congr (fun name => ?_) es)
  rw [Block.names, Block.fields, List.map_cons, List.mem_append, List.mem_append, List.mem_cons,
    List.mem_cons, or_left_comm, or_assoc]

/-- The symbols of a second list find taken what those of the first have led to. -/
theorem blocksFrom_append (t : SymbolTable) (taken : List String) (es fs : List SymbolEntry) :
    blocksFrom t taken (es ++ fs) = blocksFrom t taken es ++
      blocksFrom t ((blocksFrom t taken es).flatMap Block.names ++ taken) fs := by
  induction es generalizing taken with
  | nil => rfl
  | cons e es ih =>
      by_cases h : identifier e.name ∈ taken
      · rw [List.cons_append, blocksFrom_of_mem h, blocksFrom_of_mem h]
        exact ih taken
      · rw [List.cons_append, blocksFrom_of_notMem h, blocksFrom_of_notMem h, List.cons_append, ih,
          List.flatMap_cons]
        refine congrArg _ (congrArg _ (blocksFrom_congr (fun name => ?_) fs))
        simp only [List.mem_append]
        tauto

/-! ## The symbols that have a block -/

variable {kind : ResourceKind} {e : SymbolEntry}

theorem entry_mem_of_mem_blocksFrom {es : List SymbolEntry} {b : Block}
    (hb : b ∈ blocksFrom t taken es) : b.entry ∈ es := by
  obtain ⟨taken', e, he, rfl⟩ := blockOf_of_mem hb
  exact he

/-- The blocks before a symbol are those of smaller names, and what they have led to is
taken when it is its turn. -/
theorem blocks_eq_around (ht : t.WellFormed) (he : e ∈ t.entries kind) :
    ∃ before after, blocks t kind =
        before ++ blocksFrom t (namesBefore t kind e.name) (e :: after) ∧
      (∀ b ∈ before, b.entry.name < e.name) ∧ ∀ x ∈ after, e.name < x.name := by
  obtain ⟨first, after, hentries⟩ := List.append_of_mem he
  have hnames := SymbolTable.pairwise_lt_names (SymbolTable.ascendingByName_entries ht kind)
  rw [hentries, List.pairwise_map, List.pairwise_append, List.pairwise_cons] at hnames
  obtain ⟨-, ⟨hafter, -⟩, hfirst⟩ := hnames
  have hbefore : ∀ b ∈ blocksFrom t [] first, b.entry.name < e.name := fun b hb =>
    hfirst _ (entry_mem_of_mem_blocksFrom hb) e List.mem_cons_self
  have hsplit := blocksFrom_append t [] first (e :: after)
  rw [← hentries, List.append_nil] at hsplit
  have hfilter : (blocks t kind).filter (fun b => b.entry.name < e.name) =
      blocksFrom t [] first := by
    rw [blocks, hsplit, List.filter_append, List.filter_eq_self.2 fun b hb => by
      simpa using hbefore b hb, List.filter_eq_nil_iff.2 fun b hb => ?_, List.append_nil]
    rw [decide_eq_true_eq, not_lt]
    rcases List.mem_cons.1 (entry_mem_of_mem_blocksFrom hb) with h | h
    · rw [h]
    · exact (hafter _ h).le
  refine ⟨blocksFrom t [] first, after, ?_, hbefore, hafter⟩
  rw [namesBefore, hfilter]
  exact hsplit

/-- **A symbol has a block if and only if its name is none of those before it.**  There is
one block only for it. -/
theorem mem_blocks_iff (ht : t.WellFormed) (he : e ∈ t.entries kind) {b : Block} :
    b ∈ blocks t kind ∧ b.entry = e ↔ identifier e.name ∉ namesBefore t kind e.name ∧
      b = blockOf t (identifier e.name :: namesBefore t kind e.name) e := by
  obtain ⟨before, after, hblocks, hbefore, hafter⟩ := blocks_eq_around ht he
  -- neither before its turn nor behind it is there a block of the symbol
  have hnot : ∀ taken, b ∈ before ∨ b ∈ blocksFrom t taken after → b.entry ≠ e := by
    rintro taken (hb | hb) rfl
    · exact lt_irrefl _ (hbefore b hb)
    · exact lt_irrefl _ (hafter _ (entry_mem_of_mem_blocksFrom hb))
  rw [hblocks, List.mem_append]
  by_cases h : identifier e.name ∈ namesBefore t kind e.name
  · rw [blocksFrom_of_mem h]
    exact ⟨fun hb => absurd hb.2 (hnot _ hb.1), fun hb => absurd h hb.1⟩
  · rw [blocksFrom_of_notMem h, List.mem_cons]
    constructor
    · rintro ⟨hb | hb | hb, hentry⟩
      · exact absurd hentry (hnot [] (Or.inl hb))
      · exact ⟨h, hb⟩
      · exact absurd hentry (hnot _ (Or.inr hb))
    · rintro ⟨-, rfl⟩
      exact ⟨Or.inr (Or.inl rfl), rfl⟩

/-- The members in the block of a group, when the name of the group is taken by itself. -/
theorem mem_members_blockOf (hkind : e.kind = .styleable) {i : Nat} {m : String} :
    (i, m) ∈ (blockOf t (identifier e.name :: taken) e).members ↔
      ∃ members, t.members? e.name = some members ∧ members[i]? = some m ∧
        Block.memberName (identifier e.name) m ∉ taken ∧
        ∀ n ∈ members.take i, identifier n ≠ identifier m := by
  have hown : Block.memberName (identifier e.name) m ∉ identifier e.name :: taken ↔
      Block.memberName (identifier e.name) m ∉ taken := by
    rw [List.mem_cons, not_or, and_iff_right (memberName_ne _ _)]
  rw [blockOf, if_pos hkind, mem_emitted_iff, hown]
  simp only [Nat.zero_add, exists_eq_left']
  cases t.members? e.name <;> simp

/-! ## No name twice -/

theorem nodup_names_blockOf {e : SymbolEntry} (h : identifier e.name ∉ taken) :
    (blockOf t (identifier e.name :: taken) e).names.Nodup ∧
      ∀ name ∈ (blockOf t (identifier e.name :: taken) e).names, name ∉ taken := by
  have hmember : ∀ x ∈ (blockOf t (identifier e.name :: taken) e).members,
      Block.memberName (identifier e.name) x.2 ∉ taken := by
    intro x hx
    rw [blockOf] at hx
    split at hx
    · obtain ⟨-, -, -, hnew, -⟩ := mem_emitted_iff.1 hx
      exact fun htaken => hnew (List.mem_cons_of_mem _ htaken)
    · exact absurd hx List.not_mem_nil
  have hentry : (blockOf t (identifier e.name :: taken) e).entry = e := rfl
  rw [Block.names_eq, hentry, List.nodup_cons, List.forall_mem_cons]
  refine ⟨⟨fun hmem => ?_, ?_⟩, h, fun name hname => ?_⟩
  · obtain ⟨x, -, hx⟩ := List.mem_map.1 hmem
    exact memberName_ne _ _ hx
  · rw [blockOf]
    split
    · exact nodup_names_emitted _ _ _ _
    · exact List.nodup_nil
  · obtain ⟨x, hx, rfl⟩ := List.mem_map.1 hname
    exact hmember x hx

theorem nodup_names_blocksFrom (t : SymbolTable) (taken : List String) (es : List SymbolEntry) :
    ((blocksFrom t taken es).flatMap Block.names).Nodup ∧
      ∀ name ∈ (blocksFrom t taken es).flatMap Block.names, name ∉ taken := by
  induction es generalizing taken with
  | nil => exact ⟨List.nodup_nil, fun _ h => absurd h List.not_mem_nil⟩
  | cons e es ih =>
      by_cases h : identifier e.name ∈ taken
      · rw [blocksFrom_of_mem h]
        exact ih taken
      · obtain ⟨hnodup, hnew⟩ := nodup_names_blockOf (t := t) h
        obtain ⟨hrest, hapart⟩ :=
          ih ((blockOf t (identifier e.name :: taken) e).names ++ taken)
        rw [blocksFrom_of_notMem h, List.flatMap_cons]
        constructor
        · refine hnodup.append hrest fun name hname hlater => ?_
          exact hapart name hlater (List.mem_append_left _ hname)
        · intro name hname
          rcases List.mem_append.1 hname with hname | hname
          · exact hnew name hname
          · exact fun htaken => hapart name hname (List.mem_append_right _ htaken)

/-- **No name is declared twice** in the class of a kind. -/
theorem nodup_names_fields (t : SymbolTable) (kind : ResourceKind) :
    ((fields t kind).map Field.name).Nodup := by
  rw [names_fields_eq]
  exact (nodup_names_blocksFrom t [] (t.entries kind)).1

/-! ## The fields of arrays and members -/

theorem mem_kinds_of_mem_entries (ht : t.WellFormed) (he : e ∈ t.entries kind) :
    kind ∈ kinds t := by
  rcases SymbolTable.entries_eq_nil_or ht kind with h | h
  · rw [h] at he
    exact absurd he List.not_mem_nil
  · refine List.mem_map.2 ⟨(kind, t.entries kind), List.mem_filter.2 ⟨h, ?_⟩, rfl⟩
    simpa using List.ne_nil_of_mem he

/-- An array whose name is not taken has its field. -/
theorem own_mem_fields (ht : t.WellFormed) (he : e ∈ t.entries kind) (harray : e.isArray = true)
    (hbraces : e.value.toList.head? = some '\x7b')
    (hfree : identifier e.name ∉ namesBefore t kind e.name) :
    ⟨"int[]", identifier e.name, e.value⟩ ∈ fields t kind := by
  obtain ⟨hb, -⟩ := (mem_blocks_iff ht he).2 ⟨hfree, rfl⟩
  have hown : ownField e = ⟨"int[]", identifier e.name, e.value⟩ := if_pos ⟨harray, hbraces⟩
  rw [fields_eq_flatMap_blocks, ← hown]
  exact List.mem_flatMap.2 ⟨_, hb, List.mem_cons_self⟩

/-- A member whose name is not taken has its field, if the group has one. -/
theorem member_mem_fields (ht : t.WellFormed) (he : e ∈ t.entries .styleable)
    (hfree : identifier e.name ∉ namesBefore t .styleable e.name) {members : List String}
    {i : Nat} {m : String} (hmembers : t.members? e.name = some members)
    (hi : members[i]? = some m)
    (hnew : Block.memberName (identifier e.name) m ∉ namesBefore t .styleable e.name)
    (hfirst : ∀ n ∈ members.take i, identifier n ≠ identifier m) :
    ⟨"int", Block.memberName (identifier e.name) m, toString i⟩ ∈ fields t .styleable := by
  obtain ⟨hb, -⟩ := (mem_blocks_iff ht he).2 ⟨hfree, rfl⟩
  have hmem := (mem_members_blockOf (SymbolTable.kind_of_mem_entries ht he)).2
    ⟨members, hmembers, hi, hnew, hfirst⟩
  rw [fields_eq_flatMap_blocks]
  exact List.mem_flatMap.2
    ⟨_, hb, List.mem_cons_of_mem _ (List.mem_map.2 ⟨(i, m), hmem, rfl⟩)⟩

end RClass

/-! ## A member with the name of a group -/

namespace Collect

/-- A values file with a group, and a group of the name that a member of it gets. -/
def groupAndMember : String :=
  "<declare-styleable name='Card.View'><attr name='app.x'/></declare-styleable>" ++
    "<declare-styleable name='Card_View_app_x'><attr name='y'/></declare-styleable>"

/-- A tree with this file. -/
def takenGroup : Tree :=
  ⟨[(["res"], .directory), (["res", "values"], .directory),
    (["res", "values", "a.xml"], .file (.text groupAndMember))], []⟩

/-- The table of the file. -/
def takenGroupTable : SymbolTable :=
  ⟨[(.attr, [.scalar .attr "app.x", .scalar .attr "y"]),
    (.styleable, [.array .styleable "Card.View" "\x7b 0 \x7d",
      .array .styleable "Card_View_app_x" "\x7b 0 \x7d"])],
    [("Card.View", ["app.x"]), ("Card_View_app_x", ["y"])]⟩

/-- The class of the table.  It has an array for the group, and none of the name of its
member. -/
def takenGroupClass : String :=
  "public final class R \x7b\n  public static final class attr \x7b\n" ++
    "    public static int app_x = 0;\n    public static int y = 0;\n  \x7d\n\n" ++
    "  public static final class styleable \x7b\n" ++
    "    public static int[] Card_View = \x7b 0 \x7d;\n" ++
    "    public static int Card_View_app_x = 0;\n  \x7d\n\x7d\n"

theorem readAll?_groupAndMember : Declaration.readAll? groupAndMember =
    some [.styleable "Card.View" [⟨"attr", "app.x", false⟩],
      .styleable "Card_View_app_x" [⟨"attr", "y", false⟩]] := by
  have hevents : Markup.read groupAndMember =
      [.opening ⟨"declare-styleable", ⟨[("name", "Card.View")]⟩⟩,
        .standalone (memberTag "app.x"), .closing,
        .opening ⟨"declare-styleable", ⟨[("name", "Card_View_app_x")]⟩⟩,
        .standalone (memberTag "y"), .closing] := by decide +kernel
  have hfirst : Declaration.children? 0 [.standalone (memberTag "app.x"), .closing,
      .opening ⟨"declare-styleable", ⟨[("name", "Card_View_app_x")]⟩⟩,
      .standalone (memberTag "y"), .closing] = some ([⟨"attr", "app.x", false⟩],
        [.opening ⟨"declare-styleable", ⟨[("name", "Card_View_app_x")]⟩⟩,
          .standalone (memberTag "y"), .closing]) := by decide
  have hsecond : Declaration.children? 0 [.standalone (memberTag "y"), .closing] =
      some ([⟨"attr", "y", false⟩], []) := by decide
  rw [Declaration.readAll?, hevents, Declaration.ofEvents?_group rfl rfl hfirst,
    Declaration.ofEvents?_group rfl rfl hsecond, Declaration.ofEvents?]
  rfl

theorem all_takenGroup :
    all .standard false takenGroup [⟨"res/values/a.xml"⟩] [] = .ok takenGroupTable := by
  have hlies : takenGroup.LiesIn ⟨"res/values/a.xml"⟩ ["res", "values"] "a.xml" := by decide
  have hread : takenGroup.readText? ⟨"res/values/a.xml"⟩ = some groupAndMember :=
    Tree.readText?_eq_some_iff.2 ⟨_, hlies.fileAt?_of_file rfl, rfl⟩
  have hfile : file .standard takenGroup ⟨"res/values/a.xml"⟩ = .ok takenGroupTable :=
    file_of_declarations (by decide) hread readAll?_groupAndMember rfl
  have htables : [⟨"res/values/a.xml"⟩].mapM (located .standard takenGroup) =
      .ok [(⟨"res/values/a.xml"⟩, takenGroupTable)] :=
    mapM_eq_ok_iff.2 (.cons (located_eq_ok_iff.2 ⟨rfl, hfile⟩) .nil)
  have hown : (merged [(⟨"res/values/a.xml"⟩, takenGroupTable)]).resize = takenGroupTable := by
    rw [merged, List.mergeSort_of_pairwise (by decide)]
    decide
  rw [all, htables]
  show addLines (merged [(⟨"res/values/a.xml"⟩, takenGroupTable)]).resize [] = _
  rw [hown]
  rfl

end Collect

/-! ## The groups of a collected table -/

namespace RClass

open Java

/-- **Arrays and members keep their own fields, unless the name is taken.**  The source has
the fields of every kind, those of one block after the other, and declares no name twice.
Let a symbol be an array with values in braces, and let its name be none of those before
it.  Then it has its field, an array with these values; and a member of its group has its
field, with its place as the value, if the name is none of those before the group, and no
member further up has it.  In every other case the symbol has no block, or the block is
without the member. -/
theorem fields_of_groups {registry : Registry} {nonTransitive : Bool} {tree : Tree}
    {files : List Path} {lines : List String} {table : SymbolTable}
    (h : Collect.all registry nonTransitive tree files lines = .ok table) :
    (∀ package, (render package table).body = classText ((kinds table).map fun kind =>
      nestedClass kind (fields table kind))) ∧
    fields table .styleable = (blocks table .styleable).flatMap Block.fields ∧
    ((fields table .styleable).map Field.name).Nodup ∧
    ∀ e ∈ table.entries .styleable, e.isArray = true → e.value.toList.head? = some '\x7b' →
      .styleable ∈ kinds table ∧
      (identifier e.name ∉ namesBefore table .styleable e.name →
        ⟨"int[]", identifier e.name, e.value⟩ ∈ fields table .styleable ∧
        ∀ members i m, table.members? e.name = some members → members[i]? = some m →
          identifier e.name ++ "_" ++ identifier m ∉ namesBefore table .styleable e.name →
          (∀ n ∈ members.take i, identifier n ≠ identifier m) →
            ⟨"int", identifier e.name ++ "_" ++ identifier m, toString i⟩ ∈
              fields table .styleable) ∧
      ∀ b ∈ blocks table .styleable, b.entry = e →
        identifier e.name ∉ namesBefore table .styleable e.name ∧
        ∀ i m, (i, m) ∈ b.members → ∃ members, table.members? e.name = some members ∧
          members[i]? = some m ∧
          identifier e.name ++ "_" ++ identifier m ∉ namesBefore table .styleable e.name ∧
          ∀ n ∈ members.take i, identifier n ≠ identifier m := by
  have ht := Collect.wellFormed_all h
  refine ⟨fun package => body_render package table, fields_eq_flatMap_blocks table .styleable,
    nodup_names_fields table .styleable, fun e he harray hbraces =>
      ⟨mem_kinds_of_mem_entries ht he, fun hfree => ?_, fun b hb hentry => ?_⟩⟩
  · exact ⟨own_mem_fields ht he harray hbraces hfree,
      fun members i m hmembers hi => member_mem_fields ht he hfree hmembers hi⟩
  · obtain ⟨hfree, rfl⟩ := (mem_blocks_iff ht he).1 ⟨hb, hentry⟩
    exact ⟨hfree, fun i m hmem =>
      (mem_members_blockOf (SymbolTable.kind_of_mem_entries ht he)).1 hmem⟩

/-- The group `Card.View` and its member have their fields; the group `Card_View_app_x`
comes when its name is taken. -/
theorem fields_of_takenGroup :
    Collect.all .standard false Collect.takenGroup [⟨"res/values/a.xml"⟩] [] =
      .ok Collect.takenGroupTable ∧
    ⟨"int[]", "Card_View", "\x7b 0 \x7d"⟩ ∈ fields Collect.takenGroupTable .styleable ∧
    ⟨"int", "Card_View_app_x", "0"⟩ ∈ fields Collect.takenGroupTable .styleable ∧
    (∀ b ∈ blocks Collect.takenGroupTable .styleable,
      b.entry ≠ .array .styleable "Card_View_app_x" "\x7b 0 \x7d") ∧
    (render "p" Collect.takenGroupTable).body = Collect.takenGroupClass := by
  obtain ⟨hsource, -, -, hentries⟩ := fields_of_groups Collect.all_takenGroup
  obtain ⟨-, hkept, -⟩ :=
    hentries (.array .styleable "Card.View" "\x7b 0 \x7d") (by decide) rfl (by decide)
  obtain ⟨hown, hmember⟩ := hkept (by decide)
  obtain ⟨-, -, hleft⟩ :=
    hentries (.array .styleable "Card_View_app_x" "\x7b 0 \x7d") (by decide) rfl (by decide)
  refine ⟨Collect.all_takenGroup, hown,
    hmember ["app.x"] 0 "app.x" (by decide) rfl (by decide) (by decide), fun b hb hentry => ?_,
    (hsource "p").trans (by decide +kernel)⟩
  exact (hleft b hb hentry).1 (by decide)

/-- The array `Card_View_app_x` and its member are in the table, and neither has a field:
what the source calls `Card_View_app_x` is the index of a member of `Card.View`. -/
theorem fields_without_takenGroup :
    Collect.all .standard false Collect.takenGroup [⟨"res/values/a.xml"⟩] [] =
      .ok Collect.takenGroupTable ∧
    SymbolEntry.array .styleable "Card_View_app_x" "\x7b 0 \x7d" ∈
      Collect.takenGroupTable.entries .styleable ∧
    Collect.takenGroupTable.members? "Card_View_app_x" = some ["y"] ∧
    (render "p" Collect.takenGroupTable).body = Collect.takenGroupClass ∧
    ⟨"int[]", identifier "Card_View_app_x", "\x7b 0 \x7d"⟩ ∉
      fields Collect.takenGroupTable .styleable ∧
    ⟨"int", identifier "Card_View_app_x" ++ "_" ++ identifier "y", "0"⟩ ∉
      fields Collect.takenGroupTable .styleable ∧
    fields Collect.takenGroupTable .styleable =
      [⟨"int[]", "Card_View", "\x7b 0 \x7d"⟩, ⟨"int", "Card_View_app_x", "0"⟩] :=
  ⟨Collect.all_takenGroup, by decide, by decide, by decide +kernel, by decide, by decide,
    by decide⟩

end RClass
end ResourceStubs
