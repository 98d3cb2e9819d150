import ResourceStubs.Proofs.File.Locate
import ResourceStubs.Proofs.List.ExceptSteps
import ResourceStubs.Proofs.List.SortedFold
import ResourceStubs.Proofs.Resource.ValuesTree
import ResourceStubs.Proofs.Symbol.Merge
import ResourceStubs.Symbol.Collect

/-!
# The order of the files does not matter

What a file declares depends on its place and its contents, not on how its path is
written (`file_congr`), and the tables of the files are merged in the order of the
paths.  Two lists of files with the same places therefore give two sorted lists of
tables that differ by repetitions only, and merging a table again changes nothing.

`all_eq_of_same_files` is the result: the whole table is the same, with its values and
with the members of every group in their order.
-/

namespace ResourceStubs

open Std

namespace SymbolTable

theorem WellFormed.addEntry {registry : Registry} {t u : SymbolTable} (ht : t.WellFormed)
    {e : EntryShape × DeclaredEntry} (h : t.addEntry registry e = .ok u) : u.WellFormed := by
  obtain ⟨c, -, hu⟩ := bind_eq_ok_iff.1 h
  rw [← Except.ok.inj hu]
  exact ht.contribute c

theorem WellFormed.addDeclarations {registry : Registry} {t u : SymbolTable} (ht : t.WellFormed)
    {declarations : List Declaration} (h : t.addDeclarations registry declarations = .ok u) :
    u.WellFormed :=
  foldlM_induction h ht fun _ hv _ _ _ hw => hv.addEntry hw

theorem WellFormed.addIds {t : SymbolTable} (ht : t.WellFormed) (ids : List String) :
    (t.addIds ids).WellFormed := by
  induction ids generalizing t with
  | nil => exact ht
  | cons id ids ih => exact ih (ht.insert _)

theorem WellFormed.addLine {t u : SymbolTable} (ht : t.WellFormed) {line : String}
    (h : t.addLine line = .ok u) : u.WellFormed := by
  obtain ⟨e, -, hu⟩ := bind_eq_ok_iff.1 h
  cases e with
  | none =>
      rw [← Except.ok.inj hu]
      exact ht
  | some e =>
      rw [← Except.ok.inj hu]
      exact ht.insert e

end SymbolTable

namespace Collect

variable {registry : Registry} {tree : Tree} {p q : Path} {t : SymbolTable}

/-! ## One file -/

/-- A file of values is read, and its declarations are added. -/
theorem valuesFile_eq_ok_iff : valuesFile registry tree p = .ok t ↔ ∃ contents declarations,
    tree.readText? p = some contents ∧ Declaration.readAll? contents = some declarations ∧
      SymbolTable.empty.addDeclarations registry declarations = .ok t := by
  rw [valuesFile, bind_eq_ok_iff]
  refine exists_congr fun contents => ?_
  rw [Tree.read_eq_ok_iff, exists_and_left]
  refine and_congr_right fun _ => ?_
  cases Declaration.readAll? contents with
  | none => simp [throw_ne_ok]
  | some declarations => simp

/-- A document is read for its ids, and no other file is. -/
theorem idsOf_eq_ok_iff {ids : List String} : idsOf tree p = .ok ids ↔
    (p.extension? = some "xml" ∧ ∃ contents, tree.readText? p = some contents ∧
      ViewId.readAll? contents = some ids) ∨ (p.extension? ≠ some "xml" ∧ ids = []) := by
  rw [idsOf]
  split
  · rename_i hx
    rw [bind_eq_ok_iff, or_iff_left (fun h => h.1 hx), and_iff_right hx]
    refine exists_congr fun contents => ?_
    rw [Tree.read_eq_ok_iff]
    refine and_congr_right fun _ => ?_
    cases ViewId.readAll? contents with
    | none => simp [throw_ne_ok]
    | some found =>
        rw [Option.some.injEq]
        exact ⟨Except.ok.inj, fun h => h ▸ rfl⟩
  · rename_i hx
    rw [or_iff_right (fun h => hx h.1), and_iff_right hx]
    exact ⟨fun h => (Except.ok.inj h).symm, fun h => h ▸ rfl⟩

theorem kindOfDirectory_eq_ok_iff {directory : String} {kind : ResourceKind} :
    kindOfDirectory directory = .ok kind ↔ ResourceKind.ofDirectoryName? directory = some kind := by
  rw [kindOfDirectory]
  cases ResourceKind.ofDirectoryName? directory <;> simp

/-- Any other resource has its ids, and itself under the kind of its directory. -/
theorem resourceFile_eq_ok_iff : resourceFile tree p = .ok t ↔ ∃ ids kind,
    idsOf tree p = .ok ids ∧ ResourceKind.ofDirectoryName? (directoryOf p) = some kind ∧
      t = (SymbolTable.empty.addIds ids).insert (.scalar kind (resourceName p)) := by
  rw [resourceFile, bind_eq_ok_iff]
  refine exists_congr fun ids => ?_
  rw [exists_and_left, bind_eq_ok_iff]
  refine and_congr_right fun _ => exists_congr fun kind => ?_
  rw [kindOfDirectory_eq_ok_iff]
  exact and_congr_right fun _ => ⟨fun h => (Except.ok.inj h).symm, fun h => h ▸ rfl⟩

theorem wellFormed_valuesFile (h : valuesFile registry tree p = .ok t) : t.WellFormed := by
  obtain ⟨_, _, -, -, h⟩ := valuesFile_eq_ok_iff.1 h
  exact SymbolTable.wellFormed_empty.addDeclarations h

theorem wellFormed_resourceFile (h : resourceFile tree p = .ok t) : t.WellFormed := by
  obtain ⟨ids, _, -, -, rfl⟩ := resourceFile_eq_ok_iff.1 h
  exact (SymbolTable.wellFormed_empty.addIds ids).insert _

theorem wellFormed_file (h : file registry tree p = .ok t) : t.WellFormed := by
  rw [file] at h
  split at h
  · exact wellFormed_valuesFile h
  · exact wellFormed_resourceFile h

/-- Does the collection look into the file? -/
def isRead (file : Path) : Bool :=
  isValuesDirectory (directoryOf file) || file.extension? == some "xml"

/-- What is looked into can be read. -/
theorem exists_readText?_of_file (h : file registry tree p = .ok t) (hp : isRead p = true) :
    ∃ s, tree.readText? p = some s := by
  rw [file] at h
  split at h
  · obtain ⟨contents, _, hcontents, -⟩ := valuesFile_eq_ok_iff.1 h
    exact ⟨contents, hcontents⟩
  · rename_i hvalues
    have hx : p.extension? = some "xml" := by
      rw [isRead, Bool.or_eq_true] at hp
      rcases hp with hp | hp
      · exact absurd hp hvalues
      · exact beq_iff_eq.1 hp
    obtain ⟨ids, _, hids, -⟩ := resourceFile_eq_ok_iff.1 h
    rcases idsOf_eq_ok_iff.1 hids with ⟨-, contents, hcontents, -⟩ | ⟨hx', -⟩
    · exact ⟨contents, hcontents⟩
    · exact absurd hx hx'

section Same

variable (hpq : p.components = q.components)
include hpq

theorem directoryOf_congr : directoryOf p = directoryOf q := by
  rw [directoryOf, directoryOf, Path.directoryName?_congr hpq]

theorem resourceName_congr : resourceName p = resourceName q := by
  rw [resourceName, resourceName, Path.fileStem?_congr hpq]

omit hpq in
theorem valuesFile_congr (hread : tree.readText? p = tree.readText? q)
    (h : valuesFile registry tree p = .ok t) : valuesFile registry tree q = .ok t := by
  rw [valuesFile_eq_ok_iff] at h ⊢
  rwa [← hread]

theorem idsOf_congr (hread : p.extension? = some "xml" → tree.readText? p = tree.readText? q)
    {ids : List String} (h : idsOf tree p = .ok ids) : idsOf tree q = .ok ids := by
  rw [idsOf_eq_ok_iff] at h ⊢
  rw [← Path.extension?_congr hpq]
  refine h.imp_left fun ⟨hx, hids⟩ => ⟨hx, ?_⟩
  rwa [← hread hx]

theorem resourceFile_congr
    (hread : p.extension? = some "xml" → tree.readText? p = tree.readText? q)
    (h : resourceFile tree p = .ok t) : resourceFile tree q = .ok t := by
  obtain ⟨ids, kind, hids, htable⟩ := resourceFile_eq_ok_iff.1 h
  refine resourceFile_eq_ok_iff.2 ⟨ids, kind, idsOf_congr hpq hread hids, ?_⟩
  rwa [← directoryOf_congr hpq, ← resourceName_congr hpq]

/-- **What a file declares does not depend on how its path is written.** -/
theorem file_congr (hread : isRead p = true → tree.readText? p = tree.readText? q)
    (h : file registry tree p = .ok t) : file registry tree q = .ok t := by
  rw [file] at h ⊢
  rw [← directoryOf_congr hpq]
  split at h
  · rename_i hv
    rw [if_pos hv]
    exact valuesFile_congr (hread (by rw [isRead, hv, Bool.true_or])) h
  · rename_i hv
    rw [if_neg hv]
    exact resourceFile_congr hpq (fun hx => hread (by rw [isRead, hx, Bool.or_eq_true]; simp)) h

/-- Files at the same place declare the same. -/
theorem file_unique {u : SymbolTable} (hp : file registry tree p = .ok t)
    (hq : file registry tree q = .ok u) : t = u := by
  have hread : isRead p = true → tree.readText? p = tree.readText? q := by
    intro hr
    have hr' : isRead q = true := by
      rwa [isRead, ← directoryOf_congr hpq, ← Path.extension?_congr hpq]
    obtain ⟨s, hs⟩ := exists_readText?_of_file hp hr
    obtain ⟨s', hs'⟩ := exists_readText?_of_file hq hr'
    rw [hs, hs', Tree.readText?_eq_of_components hpq hs hs']
  exact Except.ok.inj ((file_congr hpq hread hp).symm.trans hq)

end Same

theorem located_eq_ok_iff {x : Path × SymbolTable} :
    located registry tree p = .ok x ↔ x.1 = p ∧ file registry tree p = .ok x.2 := by
  rw [located, bind_eq_ok_iff]
  constructor
  · rintro ⟨u, hu, hx⟩
    rw [← Except.ok.inj hx]
    exact ⟨rfl, hu⟩
  · rintro ⟨rfl, hu⟩
    exact ⟨x.2, hu, rfl⟩

/-! ## The tables of several files -/

/-- A table with the components of the path that it comes from. -/
def placed (x : Path × SymbolTable) : List Path.Component × SymbolTable :=
  (x.1.components, x.2)

/-- The order in which tables are merged. -/
def placedLe (a b : List Path.Component × SymbolTable) : Bool :=
  (Path.componentsCmp a.1 b.1).isLE

/-- One more table. -/
def mergePlaced (t : SymbolTable) (part : List Path.Component × SymbolTable) : SymbolTable :=
  t.merge part.2

theorem merged_eq (tables : List (Path × SymbolTable)) :
    merged tables = ((tables.map placed).mergeSort placedLe).foldl mergePlaced .empty := by
  have hsort : (tables.mergeSort fun a b => a.1.le b.1).map placed =
      (tables.map placed).mergeSort placedLe :=
    List.map_mergeSort fun _ _ _ _ => rfl
  rw [merged, ← hsort, List.foldl_map]
  rfl

theorem pairwise_mergeSort_placed (l : List (List Path.Component × SymbolTable)) :
    (l.mergeSort placedLe).Pairwise fun a b => placedLe a b = true := by
  refine List.pairwise_mergeSort (fun a b c hab hbc => ?_) (fun a b => ?_) l
  · exact TransCmp.isLE_trans hab hbc
  · exact Path.componentsCmp_total a.1 b.1

/-- Paths that stand before each other in both directions are at the same place. -/
theorem components_eq_of_placedLe {a b : List Path.Component × SymbolTable}
    (hab : placedLe a b = true) (hba : placedLe b a = true) : a.1 = b.1 := by
  have heq : Path.componentsCmp a.1 b.1 = .eq := OrientedCmp.isLE_antisymm hab hba
  exact LawfulEqCmp.eq_of_compare heq

theorem stepsOnce_mergePlaced {l : List (List Path.Component × SymbolTable)}
    (h : ∀ x ∈ l, x.2.WellFormed) : StepsOnce SymbolTable.WellFormed mergePlaced l where
  keep _ hb a _ := hb.merge a.2
  again _ hb a ha := SymbolTable.merge_merge_self hb (h a ha)

/-- **Merging depends on the set of tables only**, as long as no place has two tables. -/
theorem merged_eq_of_same {l m : List (Path × SymbolTable)}
    (hwf : ∀ x ∈ l, x.2.WellFormed)
    (hone : ∀ x ∈ l, ∀ y ∈ l, x.1.components = y.1.components → x.2 = y.2)
    (hlm : ∀ z, z ∈ l.map placed ↔ z ∈ m.map placed) : merged l = merged m := by
  have hmem : ∀ {k : List (Path × SymbolTable)} {z}, z ∈ (k.map placed).mergeSort placedLe ↔
      z ∈ k.map placed := List.mem_mergeSort
  rw [merged_eq, merged_eq]
  refine foldl_eq_of_sorted (pairwise_mergeSort_placed _) (pairwise_mergeSort_placed _)
    (fun a ha b hb hab hba => ?_) (fun z => ?_) (stepsOnce_mergePlaced fun z hz => ?_)
    SymbolTable.wellFormed_empty
  · obtain ⟨x, hx, rfl⟩ := List.mem_map.1 (hmem.1 ha)
    obtain ⟨y, hy, rfl⟩ := List.mem_map.1 (hmem.1 hb)
    have hplace : x.1.components = y.1.components := components_eq_of_placedLe hab hba
    exact Prod.ext hplace (hone x hx y hy hplace)
  · rw [hmem, hmem, hlm]
  · obtain ⟨x, hx, rfl⟩ := List.mem_map.1 (hmem.1 hz)
    exact hwf x hx

/-- The places of the files with their tables. -/
theorem mem_map_placed_iff {files : List Path} {tables : List (Path × SymbolTable)}
    (h : files.mapM (located registry tree) = .ok tables)
    {z : List Path.Component × SymbolTable} :
    z ∈ tables.map placed ↔ ∃ p ∈ files, p.components = z.1 ∧ file registry tree p = .ok z.2 := by
  rw [List.mem_map]
  constructor
  · rintro ⟨x, hx, rfl⟩
    obtain ⟨p, hp, hpx⟩ := (mem_of_mapM_eq_ok h).1 hx
    obtain ⟨rfl, hfile⟩ := located_eq_ok_iff.1 hpx
    exact ⟨_, hp, rfl, hfile⟩
  · rintro ⟨p, hp, hc, hfile⟩
    exact ⟨(p, z.2), (mem_of_mapM_eq_ok h).2 ⟨p, hp, located_eq_ok_iff.2 ⟨rfl, hfile⟩⟩,
      Prod.ext hc rfl⟩

/-! ## All files -/

/-- If the files of two lists are at the same places and all of them can be collected, the
tables are equal. -/
theorem all_eq_of_same_places {nonTransitive : Bool} {l m : List Path} {lines : List String}
    {table : SymbolTable} {tables : List (Path × SymbolTable)}
    (hlm : ∀ p ∈ l, ∃ q ∈ m, p.components = q.components)
    (hml : ∀ q ∈ m, ∃ p ∈ l, p.components = q.components)
    (hm : m.mapM (located registry tree) = .ok tables)
    (h : all registry nonTransitive tree l lines = .ok table) :
    all registry nonTransitive tree m lines = .ok table := by
  obtain ⟨tables₀, hl, hrest⟩ := bind_eq_ok_iff.1 h
  have hok : ∀ {files : List Path} {ts : List (Path × SymbolTable)},
      files.mapM (located registry tree) = .ok ts → ∀ p ∈ files, ∃ t,
        file registry tree p = .ok t := by
    intro files ts hts p hp
    obtain ⟨x, -, hpx⟩ := exists_of_mapM_eq_ok hts hp
    exact ⟨x.2, (located_eq_ok_iff.1 hpx).2⟩
  have hmerged : merged tables₀ = merged tables := by
    refine merged_eq_of_same (fun x hx => ?_) (fun x hx y hy hxy => ?_) (fun z => ?_)
    · obtain ⟨p, -, hpx⟩ := (mem_of_mapM_eq_ok hl).1 hx
      exact wellFormed_file (located_eq_ok_iff.1 hpx).2
    · obtain ⟨p, -, hpx⟩ := (mem_of_mapM_eq_ok hl).1 hx
      obtain ⟨p', -, hpy⟩ := (mem_of_mapM_eq_ok hl).1 hy
      obtain ⟨rfl, hx'⟩ := located_eq_ok_iff.1 hpx
      obtain ⟨rfl, hy'⟩ := located_eq_ok_iff.1 hpy
      exact file_unique hxy hx' hy'
    · rw [mem_map_placed_iff hl, mem_map_placed_iff hm]
      constructor
      · rintro ⟨p, hp, hc, ht⟩
        obtain ⟨q, hq, hpq⟩ := hlm p hp
        obtain ⟨u, hu⟩ := hok hm q hq
        exact ⟨q, hq, hpq.symm.trans hc, by rw [hu, file_unique hpq ht hu]⟩
      · rintro ⟨q, hq, hc, hu⟩
        obtain ⟨p, hp, hpq⟩ := hml q hq
        obtain ⟨t, ht⟩ := hok hl p hp
        exact ⟨p, hp, hpq.trans hc, by rw [ht, file_unique hpq ht hu]⟩
  refine bind_eq_ok_iff.2 ⟨tables, hm, ?_⟩
  rw [← hmerged]
  exact hrest

/-- The order of the files does not matter, whatever paths are among them. -/
theorem all_eq_of_perm {nonTransitive : Bool} {l m : List Path} {lines : List String}
    {table : SymbolTable} (hlm : l.Perm m)
    (h : all registry nonTransitive tree l lines = .ok table) :
    all registry nonTransitive tree m lines = .ok table := by
  obtain ⟨tables, htables, -⟩ := bind_eq_ok_iff.1 h
  obtain ⟨tables', htables'⟩ : ∃ tables', m.mapM (located registry tree) = .ok tables' := by
    refine exists_mapM_eq_ok fun q hq => ?_
    obtain ⟨x, -, hx⟩ := exists_of_mapM_eq_ok htables (hlm.mem_iff.2 hq)
    exact ⟨x, hx⟩
  exact all_eq_of_same_places (fun p hp => ⟨p, hlm.mem_iff.1 hp, rfl⟩)
    (fun q hq => ⟨q, hlm.mem_iff.2 hq, rfl⟩) htables' h

/-- **The table depends on the set of files only.**  Let every file of one list be at the
place of a file of the other, and let paths to the same place read the same text.  If
the symbols of the first list can be collected, those of the second can, and the tables
are equal in everything. -/
theorem all_eq_of_same_files {registry : Registry} {nonTransitive : Bool} {tree : Tree}
    {l m : List Path} {lines : List String} {table : SymbolTable}
    (hlm : ∀ p ∈ l, ∃ q ∈ m, p.same q = true) (hml : ∀ q ∈ m, ∃ p ∈ l, p.same q = true)
    (hread : ∀ p ∈ l, ∀ q ∈ m, p.same q = true → tree.readText? p = tree.readText? q)
    (h : all registry nonTransitive tree l lines = .ok table) :
    all registry nonTransitive tree m lines = .ok table := by
  obtain ⟨tables, htables, -⟩ := bind_eq_ok_iff.1 h
  -- every file of the second list can be read, since one at its place can
  obtain ⟨tables', htables'⟩ : ∃ tables', m.mapM (located registry tree) = .ok tables' := by
    refine exists_mapM_eq_ok fun q hq => ?_
    obtain ⟨p, hp, hs⟩ := hml q hq
    obtain ⟨x, -, hpx⟩ := exists_of_mapM_eq_ok htables hp
    have hfile := file_congr (Path.same_iff.1 hs) (fun _ => hread p hp q hq hs)
      (located_eq_ok_iff.1 hpx).2
    exact ⟨(q, x.2), located_eq_ok_iff.2 ⟨rfl, hfile⟩⟩
  refine all_eq_of_same_places (fun p hp => ?_) (fun q hq => ?_) htables' h
  · obtain ⟨q, hq, hs⟩ := hlm p hp
    exact ⟨q, hq, Path.same_iff.1 hs⟩
  · obtain ⟨p, hp, hs⟩ := hml q hq
    exact ⟨p, hp, Path.same_iff.1 hs⟩

/-! ## A group in two files -/

theorem file_of_declarations {contents : String} {declarations : List Declaration}
    (hp : isValuesDirectory (directoryOf p) = true) (hread : tree.readText? p = some contents)
    (hall : Declaration.readAll? contents = some declarations)
    (h : SymbolTable.empty.addDeclarations registry declarations = .ok t) :
    file registry tree p = .ok t := by
  rw [file, if_pos hp]
  exact valuesFile_eq_ok_iff.2 ⟨contents, declarations, hread, hall, h⟩

theorem file_of_ids {contents : String} {ids : List String} {kind : ResourceKind}
    (hp : ¬isValuesDirectory (directoryOf p) = true) (hx : p.extension? = some "xml")
    (hread : tree.readText? p = some contents) (hids : ViewId.readAll? contents = some ids)
    (hkind : ResourceKind.ofDirectoryName? (directoryOf p) = some kind) :
    file registry tree p =
      .ok ((SymbolTable.empty.addIds ids).insert (.scalar kind (resourceName p))) := by
  rw [file, if_neg hp]
  exact resourceFile_eq_ok_iff.2
    ⟨ids, kind, idsOf_eq_ok_iff.2 (Or.inl ⟨hx, contents, hread, hids⟩), hkind, rfl⟩

/-- A values file with a symbol, and then a group of the same name. -/
def scalarAndGroup : String :=
  "<item type='styleable' name='S'/>" ++
    "<declare-styleable name='S'><attr name='x'/></declare-styleable>"

/-- A values file with more members of the group. -/
def groupAgain : String :=
  "<declare-styleable name='S'><attr name='y'/><attr name='x'/></declare-styleable>"

/-- A tree with the two files. -/
def splitGroup : Tree :=
  ⟨[(["res"], .directory), (["res", "values"], .directory), (["res", "values-v21"], .directory),
    (["res", "values", "a.xml"], .file (.text scalarAndGroup)),
    (["res", "values-v21", "a.xml"], .file (.text groupAgain))], []⟩

/-- The table of the two files. -/
def splitGroupTable : SymbolTable :=
  ⟨[(.attr, [.scalar .attr "x", .scalar .attr "y"]),
    (.styleable, [.array .styleable "S" "\x7b 0, 0 \x7d"])], [("S", ["x", "y"])]⟩

/-- The tag of the group `S`. -/
def groupTag : Markup.Tag :=
  ⟨"declare-styleable", ⟨[("name", "S")]⟩⟩

/-- The tag of a member. -/
def memberTag (name : String) : Markup.Tag :=
  ⟨"attr", ⟨[("name", name)]⟩⟩

theorem readAll?_scalarAndGroup : Declaration.readAll? scalarAndGroup =
    some [.element "item" "S" (some "styleable"), .styleable "S" [⟨"attr", "x", false⟩]] := by
  have hevents : Markup.read scalarAndGroup =
      [.standalone ⟨"item", ⟨[("type", "styleable"), ("name", "S")]⟩⟩, .opening groupTag,
        .standalone (memberTag "x"), .closing] := by decide +kernel
  have hchildren : Declaration.children? 0 [.standalone (memberTag "x"), .closing] =
      some ([⟨"attr", "x", false⟩], []) := by decide
  rw [Declaration.readAll?, hevents, Declaration.ofEvents?_standalone rfl,
    Declaration.ofEvents?_group rfl rfl hchildren, Declaration.ofEvents?]
  rfl

theorem readAll?_groupAgain : Declaration.readAll? groupAgain =
    some [.styleable "S" [⟨"attr", "y", false⟩, ⟨"attr", "x", false⟩]] := by
  have hevents : Markup.read groupAgain =
      [.opening groupTag, .standalone (memberTag "y"), .standalone (memberTag "x"),
        .closing] := by decide +kernel
  have hchildren : Declaration.children? 0
      [.standalone (memberTag "y"), .standalone (memberTag "x"), .closing] =
        some ([⟨"attr", "y", false⟩, ⟨"attr", "x", false⟩], []) := by decide
  rw [Declaration.readAll?, hevents, Declaration.ofEvents?_group rfl rfl hchildren,
    Declaration.ofEvents?]
  rfl

theorem readText?_splitGroup :
    splitGroup.readText? ⟨"res/values/a.xml"⟩ = some scalarAndGroup ∧
    splitGroup.readText? ⟨"res//values/a.xml"⟩ = some scalarAndGroup ∧
      splitGroup.readText? ⟨"res/values-v21/a.xml"⟩ = some groupAgain := by
  have hplain : splitGroup.LiesIn ⟨"res/values/a.xml"⟩ ["res", "values"] "a.xml" := by
    decide
  have hv21 : splitGroup.LiesIn ⟨"res/values-v21/a.xml"⟩ ["res", "values-v21"] "a.xml" := by
    decide
  have hslashes : splitGroup.locate Tree.linkLimit [] ["res", "", "values", "a.xml"] =
      some (.found ["res", "values", "a.xml"] (.file (.text scalarAndGroup))) := by
    rw [Tree.locate_of_directory (by decide) (by decide) rfl,
      Tree.locate_cons_of_isIdle (by decide),
      Tree.locate_of_directory (by decide) (by decide) rfl,
      Tree.locate_of_file (by decide) (by decide) rfl]
    rfl
  exact ⟨Tree.readText?_eq_some_iff.2 ⟨_, hplain.fileAt?_of_file rfl, rfl⟩,
    Tree.readText?_of_locate (by decide) (by decide) hslashes,
    Tree.readText?_eq_some_iff.2 ⟨_, hv21.fileAt?_of_file rfl, rfl⟩⟩

/-- What the first file declares. -/
def scalarAndGroupTable : SymbolTable :=
  ⟨[(.attr, [.scalar .attr "x"]), (.styleable, [.scalar .styleable "S"])], [("S", ["x"])]⟩

/-- What the second file declares. -/
def groupAgainTable : SymbolTable :=
  ⟨[(.attr, [.scalar .attr "x", .scalar .attr "y"]),
    (.styleable, [.array .styleable "S" "\x7b 0, 0 \x7d"])], [("S", ["y", "x"])]⟩

theorem all_splitGroup_lines (lines : List String) : all .standard false splitGroup
    [⟨"res/values/a.xml"⟩, ⟨"res/values-v21/a.xml"⟩] lines =
      addLines splitGroupTable lines := by
  obtain ⟨hplain, -, hv21⟩ := readText?_splitGroup
  have hone : file .standard splitGroup ⟨"res/values/a.xml"⟩ = .ok scalarAndGroupTable :=
    file_of_declarations (by decide) hplain readAll?_scalarAndGroup rfl
  have htwo : file .standard splitGroup ⟨"res/values-v21/a.xml"⟩ = .ok groupAgainTable :=
    file_of_declarations (by decide) hv21 readAll?_groupAgain rfl
  have htables : [⟨"res/values/a.xml"⟩, ⟨"res/values-v21/a.xml"⟩].mapM
      (located .standard splitGroup) =
        .ok [(⟨"res/values/a.xml"⟩, scalarAndGroupTable),
          (⟨"res/values-v21/a.xml"⟩, groupAgainTable)] :=
    mapM_eq_ok_iff.2 (.cons (located_eq_ok_iff.2 ⟨rfl, hone⟩)
      (.cons (located_eq_ok_iff.2 ⟨rfl, htwo⟩) .nil))
  have hown : (merged [(⟨"res/values/a.xml"⟩, scalarAndGroupTable),
      (⟨"res/values-v21/a.xml"⟩, groupAgainTable)]).resize = splitGroupTable := by
    rw [merged, List.mergeSort_of_pairwise (by decide)]
    decide
  rw [all, htables, ← hown]
  rfl

theorem all_splitGroup : all .standard false splitGroup
    [⟨"res/values/a.xml"⟩, ⟨"res/values-v21/a.xml"⟩] ["int styleable S 0"] =
      .ok splitGroupTable := by
  rw [all_splitGroup_lines]
  rfl

/-- The two files in the other order, and one of them again under another spelling. -/
theorem all_splitGroup_repeated :
    all .standard false splitGroup
      [⟨"res/values/a.xml"⟩, ⟨"res/values-v21/a.xml"⟩] ["int styleable S 0"] =
        .ok splitGroupTable ∧
    all .standard false splitGroup
      [⟨"res/values-v21/a.xml"⟩, ⟨"res//values/a.xml"⟩, ⟨"res/values/a.xml"⟩]
      ["int styleable S 0"] = .ok splitGroupTable := by
  obtain ⟨hplain, hslashes, -⟩ := readText?_splitGroup
  refine ⟨all_splitGroup, all_eq_of_same_files (by decide +kernel) (by decide +kernel) ?_
    all_splitGroup⟩
  intro p hp q hq hs
  rcases List.mem_pair.1 hp with rfl | rfl
  · rcases List.mem_cons.1 hq with rfl | hq
    · exact absurd hs (by decide +kernel)
    · rcases List.mem_pair.1 hq with rfl | rfl
      · rw [hplain, hslashes]
      · rfl
  · rcases List.mem_cons.1 hq with rfl | hq
    · rfl
    · rcases List.mem_pair.1 hq with rfl | rfl
      · exact absurd hs (by decide +kernel)
      · exact absurd hs (by decide +kernel)

end Collect
end ResourceStubs
