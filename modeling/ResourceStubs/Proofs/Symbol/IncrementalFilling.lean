import ResourceStubs.Proofs.Symbol.OrderedUnion

/-!
# Filling a table step by step

A table may be filled in place, or its steps may be run on the empty table and the result
merged in.  Both give the same table, with its values and with the members in their order:
`fill_eq_merge_fill_empty`.

One step is enough, for a merge is associative.  `step_eq_merge` says that a step is the
merge of what it makes of the empty table; so a step after a merge is a merge with the step
inside (`step_merge`), and a run is pulled inside step by step (`fill_merge`).

Hence declarations may be cut into chunks anywhere, and each chunk read into a table of its
own (`exists_addDeclarations_flatten`).
-/

namespace ResourceStubs
namespace SymbolTable

/-- A step in the filling of a table.  A table that is merged in was made by the
operations. -/
inductive FillStep where
  | insert (e : SymbolEntry)
  | addMembers (group : String) (names : List String)
  | addLine (line : String)
  | contribute (c : Contribution)
  | merge (u : SymbolTable) (hu : u.Reachable)

/-- The table after a step.  A line that cannot be read leaves it as it is. -/
def step (t : SymbolTable) : FillStep → SymbolTable
  | .insert e => t.insert e
  | .addMembers group names => t.addMembers group names
  | .addLine line =>
      match t.addLine line with
      | .ok u => u
      | .error _ => t
  | .contribute c => t.contribute c
  | .merge u _ => t.merge u

/-- The table after steps, one after the other. -/
def fill (t : SymbolTable) (steps : List FillStep) : SymbolTable :=
  steps.foldl step t

variable {t u : SymbolTable}

@[simp] theorem fill_nil (t : SymbolTable) : t.fill [] = t := rfl

@[simp] theorem fill_cons (t : SymbolTable) (s : FillStep) (steps : List FillStep) :
    t.fill (s :: steps) = (t.step s).fill steps := rfl

theorem fill_append (t : SymbolTable) (before after : List FillStep) :
    t.fill (before ++ after) = (t.fill before).fill after :=
  List.foldl_append

/-! ## One step -/

@[simp] theorem get?_empty (kind : ResourceKind) (name : String) :
    empty.get? kind name = none := rfl

@[simp] theorem members?_empty (group : String) : empty.members? group = none := rfl

theorem insert_eq_merge (ht : t.WellFormed) (e : SymbolEntry) :
    t.insert e = t.merge (empty.insert e) := by
  have hone := wellFormed_empty.insert e
  refine (ht.insert e).ext (ht.merge _) (fun kind name => ?_) fun group => ?_
  · rw [get?_insert ht, get?_merge ht hone, get?_insert wellFormed_empty, get?_empty,
      Option.none_or]
  · rw [members?_insert, members?_merge ht hone, members?_insert, members?_empty,
      joinMembers_none]

theorem addMembers_eq_merge (ht : t.WellFormed) (group : String) (names : List String) :
    t.addMembers group names = t.merge (empty.addMembers group names) := by
  have hone := wellFormed_empty.addMembers group names
  refine (ht.addMembers group names).ext (ht.merge _) (fun kind name => ?_) fun g => ?_
  · rw [get?_addMembers, get?_merge ht hone, get?_addMembers, get?_empty, Option.or_none]
  · rw [members?_addMembers ht, members?_merge ht hone, members?_addMembers wellFormed_empty]
    by_cases hg : g = group
    · rw [if_pos hg, if_pos hg, members?_empty, hg]
      -- the names lose their repetitions on the way, and would lose them in `t` anyway
      show some _ = some _
      rw [foldl_pushNew_foldl_pushNew]
      rfl
    · rw [if_neg hg, if_neg hg, members?_empty, joinMembers_none]

theorem contribute_eq_merge (ht : t.WellFormed) (c : Contribution) :
    t.contribute c = t.merge (empty.contribute c) := by
  unfold SymbolTable.contribute
  cases c.group with
  | none => exact insert_eq_merge ht c.entry
  | some group =>
      dsimp only
      have hgroup := wellFormed_empty.addMembers group.name group.members
      rw [insert_eq_merge (ht.addMembers _ _), addMembers_eq_merge ht,
        merge_assoc ht hgroup (wellFormed_empty.insert _), ← insert_eq_merge hgroup]

/-- A line adds its symbol, if it has one. -/
theorem step_addLine (t : SymbolTable) (line : String) :
    t.step (.addLine line) =
      match SymbolLine.read line with
      | .ok (some e) => t.insert e
      | _ => t := by
  show (match t.addLine line with | .ok u => u | .error _ => t) = _
  unfold SymbolTable.addLine
  cases SymbolLine.read line with
  | error e => rfl
  | ok found => cases found <;> rfl

theorem WellFormed.step (ht : t.WellFormed) (s : FillStep) : (t.step s).WellFormed := by
  cases s with
  | insert e => exact ht.insert e
  | addMembers group names => exact ht.addMembers group names
  | addLine line =>
      rw [step_addLine]
      split
      · exact ht.insert _
      · exact ht
  | contribute c => exact ht.contribute c
  | merge u _ => exact ht.merge u

/-- **A step is the merge of what it makes of the empty table.** -/
theorem step_eq_merge (ht : t.WellFormed) (s : FillStep) :
    t.step s = t.merge (empty.step s) := by
  cases s with
  | insert e => exact insert_eq_merge ht e
  | addMembers group names => exact addMembers_eq_merge ht group names
  | addLine line =>
      rw [step_addLine, step_addLine]
      split
      · exact insert_eq_merge ht _
      · exact (merge_empty ht).symm
  | contribute c => exact contribute_eq_merge ht c
  | merge u hu =>
      show t.merge u = t.merge (empty.merge u)
      rw [empty_merge hu.wellFormed]

/-- A step after a merge is a step in the table that is merged in. -/
theorem step_merge (ht : t.WellFormed) (hu : u.WellFormed) (s : FillStep) :
    (t.merge u).step s = t.merge (u.step s) := by
  rw [step_eq_merge (ht.merge u), merge_assoc ht hu (wellFormed_empty.step s),
    ← step_eq_merge hu]

/-! ## Many steps -/

theorem WellFormed.fill (ht : t.WellFormed) (steps : List FillStep) :
    (t.fill steps).WellFormed := by
  induction steps generalizing t with
  | nil => exact ht
  | cons s steps ih => exact ih (ht.step s)

theorem fill_merge (ht : t.WellFormed) (hu : u.WellFormed) (steps : List FillStep) :
    (t.merge u).fill steps = t.merge (u.fill steps) := by
  induction steps generalizing u with
  | nil => rfl
  | cons s steps ih => rw [fill_cons, fill_cons, step_merge ht hu, ih (hu.step s)]

/-- Filling with all steps is filling the empty table with them, and merging. -/
theorem fill_eq_merge (ht : t.WellFormed) (steps : List FillStep) :
    t.fill steps = t.merge (empty.fill steps) := by
  rw [← fill_merge ht wellFormed_empty, merge_empty ht]

/-- **The steps may be cut anywhere.** -/
theorem fill_flatten (ht : t.WellFormed) (chunks : List (List FillStep)) :
    t.fill chunks.flatten = (chunks.map empty.fill).foldl merge t := by
  induction chunks generalizing t with
  | nil => rfl
  | cons chunk chunks ih =>
      rw [List.flatten_cons, fill_append, ih (ht.fill chunk), fill_eq_merge ht, List.map_cons,
        List.foldl_cons]

/-! ## Declarations -/

/-- The steps that a declaration leads to. -/
def declarationSteps (d : Declaration) : List FillStep :=
  d.entries.map fun e => .contribute (.ofShape e.1 e.2)

theorem addDeclarations_standard (t : SymbolTable) (declarations : List Declaration) :
    t.addDeclarations .standard declarations =
      .ok (t.fill (declarations.flatMap declarationSteps)) := by
  have hstep : ∀ (v : SymbolTable) (e : EntryShape × DeclaredEntry) (w : SymbolTable),
      v.addEntry .standard e = .ok w ↔ True ∧ w = v.contribute (.ofShape e.1 e.2) := by
    intro v e w
    rw [true_and]
    exact ⟨fun h => (Except.ok.inj h).symm, fun h => by rw [h]; rfl⟩
  rw [addDeclarations, foldlM_eq_ok_iff hstep]
  refine ⟨fun _ _ => trivial, ?_⟩
  unfold fill declarationSteps
  rw [← List.map_flatMap, List.foldl_map]
  rfl

/-- **Declarations may be cut into chunks anywhere.**  Every chunk can be read into a table
of its own, and the merge of these tables is what all declarations make. -/
theorem exists_addDeclarations_flatten (ht : t.WellFormed) (chunks : List (List Declaration)) :
    ∃ parts, chunks.mapM (empty.addDeclarations .standard) = .ok parts ∧
      t.addDeclarations .standard chunks.flatten = .ok (parts.foldl merge t) := by
  refine ⟨chunks.map fun chunk => empty.fill (chunk.flatMap declarationSteps), ?_, ?_⟩
  · rw [mapM_eq_ok_iff, List.forall₂_map_right_iff]
    exact List.forall₂_same.2 fun chunk _ => addDeclarations_standard empty chunk
  · have hsteps : chunks.flatten.flatMap declarationSteps =
        (chunks.map fun chunk => chunk.flatMap declarationSteps).flatten := by
      rw [List.flatMap_def, List.map_flatten, List.flatten_flatten, List.map_map]
      rfl
    rw [addDeclarations_standard, hsteps, fill_flatten ht, List.map_map]
    rfl

/-- **Filling in place is filling apart and merging.**  For every table and every run of
steps, the steps make of the table what it becomes when it is merged with what they make of
the empty one.  In particular, wherever the declarations of a values file are cut into
chunks, the chunks can be read apart, and their tables merge to the table of the file. -/
theorem fill_eq_merge_fill_empty (ht : t.Reachable) (steps : List FillStep) :
    t.fill steps = t.merge (empty.fill steps) ∧
    ∀ chunks : List (List Declaration), ∃ parts,
      chunks.mapM (empty.addDeclarations .standard) = .ok parts ∧
      t.addDeclarations .standard chunks.flatten = .ok (parts.foldl merge t) ∧
      ∀ tree file contents, tree.read file = .ok contents →
        Declaration.readAll? contents = some chunks.flatten →
        Collect.valuesFile .standard tree file = .ok (parts.foldl merge .empty) := by
  refine ⟨fill_eq_merge ht.wellFormed steps, fun chunks => ?_⟩
  obtain ⟨parts, hparts, hall⟩ := exists_addDeclarations_flatten ht.wellFormed chunks
  obtain ⟨parts', hparts', hempty⟩ := exists_addDeclarations_flatten wellFormed_empty chunks
  obtain rfl : parts = parts' := Except.ok.inj (hparts.symm.trans hparts')
  refine ⟨parts, hparts, hall, fun tree file contents hread hdeclared => ?_⟩
  refine bind_eq_ok_iff.2 ⟨contents, hread, ?_⟩
  rw [hdeclared]
  exact hempty

/-- Steps of every kind: a group without members, a line that cannot be read, repeated
members, and arrays in the place of a symbol that is there. -/
def stepsOfAllKinds : List FillStep :=
  [.addMembers "T" [], .addLine "int", .addMembers "S" ["z", "x", "z"],
    .contribute (.styleable (.group "S" ["y", "y"])),
    .addLine "int[] styleable S \x7b 0 \x7d", .insert (.array .styleable "S" "\x7b \x7d"),
    .merge _ reachable_groupAgainTable]

/-- The steps on a table with a scalar in the place of the group, and a file that is read in
two chunks. -/
theorem fill_eq_merge_fill_empty_scalarAndGroup :
    Collect.scalarAndGroupTable.fill stepsOfAllKinds =
      Collect.scalarAndGroupTable.merge (empty.fill stepsOfAllKinds) ∧
    (Collect.scalarAndGroupTable.fill stepsOfAllKinds).members? "S" = some ["x", "z", "y"] ∧
    (Collect.scalarAndGroupTable.fill stepsOfAllKinds).members? "T" = some [] ∧
    (Collect.scalarAndGroupTable.fill stepsOfAllKinds).get? .styleable "S" =
      some (.scalar .styleable "S") ∧
    ∃ one two, empty.addDeclarations .standard [.element "item" "S" (some "styleable")] =
        .ok one ∧
      empty.addDeclarations .standard [.styleable "S" [⟨"attr", "x", false⟩]] = .ok two ∧
      Collect.valuesFile .standard Collect.splitGroup ⟨"res/values/a.xml"⟩ =
        .ok ((empty.merge one).merge two) := by
  obtain ⟨hfill, hchunks⟩ :=
    fill_eq_merge_fill_empty reachable_scalarAndGroupTable stepsOfAllKinds
  obtain ⟨parts, hparts, -, hfile⟩ := hchunks
    [[.element "item" "S" (some "styleable")], [.styleable "S" [⟨"attr", "x", false⟩]]]
  obtain ⟨one, rest, hone, hrest, rfl⟩ := mapM_cons_eq_ok_iff.1 hparts
  obtain ⟨two, nothing, htwo, hnothing, rfl⟩ := mapM_cons_eq_ok_iff.1 hrest
  obtain rfl : nothing = [] := (Except.ok.inj hnothing).symm
  refine ⟨hfill, by decide, by decide, by decide, one, two, hone, htwo, ?_⟩
  exact hfile _ _ _ (Tree.read_eq_ok_iff.2 Collect.readText?_splitGroup.1)
    Collect.readAll?_scalarAndGroup

end SymbolTable
end ResourceStubs
