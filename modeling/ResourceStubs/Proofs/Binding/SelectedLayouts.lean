import Mathlib.Data.List.Nodup
import ResourceStubs.Binding.Selection
import ResourceStubs.Proofs.Binding.OwnStore
import ResourceStubs.Proofs.File.Locate
import ResourceStubs.Proofs.List.FirstOfEach

/-!
# The layouts that get a class

The selection is made in two passes that share the names which are there.  The first one
keeps the first marked layout of each name, and the second one adds an empty layout for
every missing name that is new.  Unmarked layouts and layouts without a file leave no name
behind, so a layout that is there without the marker can still be missing: then it gets an
empty class.

* `selection_of_readable`: what is selected, in its order, from any list of layouts.
* `all_eq_ok_iff`, `mem_selected_iff`: what is selected among layouts with different names.
  There the first pass keeps all that is marked, so two selections with the same elements
  are permutations of each other.
-/

namespace ResourceStubs
namespace Selection

variable {tree : Tree} {layouts selected : List LayoutData} {d : LayoutData}

/-- Does the layout have a file, and is it marked? -/
def isMarkedLayout (tree : Tree) (d : LayoutData) : Bool :=
  d.file.any (TypeStore.marks tree)

theorem isMarkedLayout_iff : isMarkedLayout tree d = true ↔
    ∃ file text, d.file = some file ∧ tree.readText? file = some text ∧
      TypeStore.marker.toList <:+: text.toList := by
  rw [isMarkedLayout, Option.any_eq_true]
  simp only [TypeStore.marks_iff, exists_and_left]

/-- Can the file of the layout be read, if it has one? -/
def IsReadable (tree : Tree) (d : LayoutData) : Prop :=
  ∀ file, d.file = some file → ∃ text, tree.readText? file = some text

/-- What a layout adds. -/
def addMarked (tree : Tree) (selected : List LayoutData) (d : LayoutData) : List LayoutData :=
  if isMarkedLayout tree d then select selected d else selected

theorem selectMarked_eq_ok_iff {before after : List LayoutData} :
    selectMarked tree before d = .ok after ↔
      IsReadable tree d ∧ after = addMarked tree before d := by
  rw [selectMarked, addMarked, isMarkedLayout, IsReadable]
  cases d.file with
  | none => exact ⟨fun h => ⟨by simp, (Except.ok.inj h).symm⟩, fun h => by rw [h.2]; rfl⟩
  | some file =>
      rw [bind_eq_ok_iff, Option.any_some, TypeStore.marks]
      constructor
      · rintro ⟨contents, hread, h⟩
        rw [Tree.read_eq_ok_iff] at hread
        rw [hread, Option.any_some]
        refine ⟨fun file' hfile' => ⟨contents, ?_⟩, (Except.ok.inj h).symm⟩
        rw [← Option.some.inj hfile', hread]
      · rintro ⟨hreadable, rfl⟩
        obtain ⟨contents, hread⟩ := hreadable file rfl
        rw [hread, Option.any_some]
        exact ⟨contents, Tree.read_eq_ok_iff.2 hread, rfl⟩

/-- Of the marked layouts the first of each name is selected. -/
theorem foldl_addMarked_eq (layouts : List LayoutData) :
    layouts.foldl (addMarked tree) [] =
      firstOfEach LayoutData.layout (layouts.filter (isMarkedLayout tree)) := by
  rw [← firsts_nil_eq_firstOfEach, firsts, List.foldl_filter, ← select_eq]
  rfl

/-- **The first marked layout of each name is selected, and an empty one for each name that
is missing.** -/
theorem all_eq_ok_iff_firsts :
    all tree layouts = .ok selected ↔ (∀ d ∈ layouts, IsReadable tree d) ∧
      selected = firsts LayoutData.layout
        (firstOfEach LayoutData.layout (layouts.filter (isMarkedLayout tree)))
        ((layouts.flatMap LayoutData.missingLayouts).map LayoutData.empty) := by
  have hmarked : ∀ {marked : List LayoutData},
      layouts.foldlM (selectMarked tree) [] = .ok marked ↔
        (∀ d ∈ layouts, IsReadable tree d) ∧ marked = layouts.foldl (addMarked tree) [] :=
    foldlM_eq_ok_iff (f := selectMarked tree) fun s d s' => selectMarked_eq_ok_iff
  rw [all, bind_eq_ok_iff, firsts, List.foldl_map, ← foldl_addMarked_eq]
  constructor
  · rintro ⟨marked, h, hselected⟩
    obtain ⟨hreadable, rfl⟩ := hmarked.1 h
    exact ⟨hreadable, (Except.ok.inj hselected).symm⟩
  · rintro ⟨hreadable, rfl⟩
    exact ⟨_, hmarked.2 ⟨hreadable, rfl⟩, rfl⟩

/-- The missing names, each of them once, less those of marked layouts. -/
def missingNames (tree : Tree) (layouts : List LayoutData) : List String :=
  (firstOfEach (fun name : String => name) (layouts.flatMap LayoutData.missingLayouts)).filter
    fun name => ∀ d ∈ layouts, isMarkedLayout tree d = true → d.layout ≠ name

theorem mem_missingNames_iff {name : String} : name ∈ missingNames tree layouts ↔
    name ∈ layouts.flatMap LayoutData.missingLayouts ∧
      ∀ d ∈ layouts, isMarkedLayout tree d = true → d.layout ≠ name := by
  have hkept : name ∈ firstOfEach (fun name : String => name)
      (layouts.flatMap LayoutData.missingLayouts) ↔
        name ∈ layouts.flatMap LayoutData.missingLayouts := by
    have hkeys : name ∈ (firstOfEach (fun name : String => name)
        (layouts.flatMap LayoutData.missingLayouts)).map (fun name => name) ↔
          name ∈ (layouts.flatMap LayoutData.missingLayouts).map fun name => name :=
      mem_map_firstOfEach_iff
    rwa [List.map_id', List.map_id'] at hkeys
  rw [missingNames, List.mem_filter, hkept, decide_eq_true_eq]

/-- **Behind the marked layouts stands an empty one for each missing name.** -/
theorem all_eq_ok_iff_append :
    all tree layouts = .ok selected ↔ (∀ d ∈ layouts, IsReadable tree d) ∧
      selected = firstOfEach LayoutData.layout (layouts.filter (isMarkedLayout tree)) ++
        (missingNames tree layouts).map LayoutData.empty := by
  rw [all_eq_ok_iff_firsts, firsts_eq_append_firstOfEach, firstOfEach_map, List.filter_map,
    missingNames]
  -- a name is kept if the marked layouts do not have it, whether all of them or the first ones
  refine and_congr_right fun _ => Eq.congr_right (congrArg _ (congrArg _
    (List.filter_congr fun name _ => decide_eq_decide.2 ?_)))
  rw [mem_map_firstOfEach_iff, List.mem_map, not_exists]
  constructor
  · exact fun h d hd hmarked hname => h d ⟨List.mem_filter.2 ⟨hd, hmarked⟩, hname⟩
  · rintro h d ⟨hd, hname⟩
    obtain ⟨hd, hmarked⟩ := List.mem_filter.1 hd
    exact h d hd hmarked hname

/-- **What is selected.**  If the files of the layouts can be read, the selection succeeds.
Its names differ.  First come, in their order, the first layout of each name among those
whose file has the marker, as they are; then, in the order in which they are met in any
layout, an empty layout for each missing name that no marked layout has; and nothing else.
So a missing name whose layouts are all unmarked gets an empty layout, and the name of a
marked layout is never selected with another one than a marked layout. -/
theorem selection_of_readable (h : ∀ d ∈ layouts, IsReadable tree d) :
    (∀ d, isMarkedLayout tree d = true ↔ ∃ file text, d.file = some file ∧
      tree.readText? file = some text ∧ TypeStore.marker.toList <:+: text.toList) ∧
    ∃ selected, all tree layouts = .ok selected ∧ (selected.map LayoutData.layout).Nodup ∧
      selected = firstOfEach LayoutData.layout (layouts.filter (isMarkedLayout tree)) ++
        (missingNames tree layouts).map LayoutData.empty ∧
      (∀ d ∈ layouts, d.layout ∈ layouts.flatMap LayoutData.missingLayouts →
        (∀ e ∈ layouts, e.layout = d.layout → isMarkedLayout tree e = false) →
          .empty d.layout ∈ selected) ∧
      ∀ d ∈ layouts, isMarkedLayout tree d = true → ∀ e ∈ selected, e.layout = d.layout →
        e ∈ layouts ∧ isMarkedLayout tree e = true := by
  refine ⟨fun d => isMarkedLayout_iff, _, all_eq_ok_iff_append.2 ⟨h, rfl⟩, ?_, rfl,
    fun d hd hmissing hplain => ?_, fun d hd hmarked e he hname => ?_⟩
  · obtain ⟨-, hselected⟩ := all_eq_ok_iff_firsts.1 (all_eq_ok_iff_append.2 ⟨h, rfl⟩)
    rw [hselected, ← firsts_nil_eq_firstOfEach]
    exact nodup_firsts (nodup_firsts (by simp) _) _
  · refine List.mem_append_right _ (List.mem_map_of_mem (mem_missingNames_iff.2 ⟨hmissing, ?_⟩))
    intro e he hmarked hname
    rw [hplain e he hname] at hmarked
    exact absurd hmarked (by decide)
  · rcases List.mem_append.1 he with he | he
    · exact List.mem_filter.1 (mem_of_mem_firstOfEach he)
    · obtain ⟨name, hmem, rfl⟩ := List.mem_map.1 he
      exact absurd hname.symm ((mem_missingNames_iff.1 hmem).2 d hd hmarked)

/-- A tree with a file that is marked and one that is not. -/
def plainAndMarked : Tree :=
  ⟨[(["plain.xml"], .file (.text "<View/>")), (["marked.xml"], .file (.text "<layout/>"))], []⟩

/-- The file that is included is missing. -/
def missingInclude (layout : String) : Binding :=
  ⟨"i", LayoutData.localClass "p" layout, .included layout true⟩

/-- A layout without the marker that is included by itself, and a layout in three variants, the
first of which has no marker. -/
def rowAndMain : List LayoutData :=
  [⟨"row", some ⟨"plain.xml"⟩, [missingInclude "row", missingInclude "gone"], []⟩,
    ⟨"main", some ⟨"plain.xml"⟩, [missingInclude "main"], []⟩,
    ⟨"main", some ⟨"marked.xml"⟩, [missingInclude "gone"], []⟩,
    ⟨"main", some ⟨"marked.xml"⟩, [], []⟩]

theorem readText?_plainAndMarked :
    plainAndMarked.readText? ⟨"plain.xml"⟩ = some "<View/>" ∧
      plainAndMarked.readText? ⟨"marked.xml"⟩ = some "<layout/>" := by
  have hplain : plainAndMarked.LiesIn ⟨"plain.xml"⟩ [] "plain.xml" := by decide
  have hmarked : plainAndMarked.LiesIn ⟨"marked.xml"⟩ [] "marked.xml" := by decide
  exact ⟨Tree.readText?_eq_some_iff.2 ⟨_, hplain.fileAt?_of_file rfl, rfl⟩,
    Tree.readText?_eq_some_iff.2 ⟨_, hmarked.fileAt?_of_file rfl, rfl⟩⟩

/-- The variant of `main` that is marked first is selected, and empty layouts for `row` and
for `gone`. -/
theorem selection_of_rowAndMain :
    (∀ d ∈ rowAndMain, IsReadable plainAndMarked d) ∧
    all plainAndMarked rowAndMain =
      .ok [⟨"main", some ⟨"marked.xml"⟩, [missingInclude "gone"], []⟩, .empty "row",
        .empty "gone"] := by
  obtain ⟨hplain, hmarked⟩ := readText?_plainAndMarked
  have hreadable : ∀ d ∈ rowAndMain, IsReadable plainAndMarked d := by
    have hfiles : ∀ d ∈ rowAndMain, d.file = some ⟨"plain.xml"⟩ ∨ d.file = some ⟨"marked.xml"⟩ := by
      decide
    intro d hd file hfile
    rcases hfiles d hd with h | h
    · rw [h, Option.some.injEq] at hfile
      exact ⟨_, hfile ▸ hplain⟩
    · rw [h, Option.some.injEq] at hfile
      exact ⟨_, hfile ▸ hmarked⟩
  have hmarks : TypeStore.marks plainAndMarked ⟨"plain.xml"⟩ = false ∧
      TypeStore.marks plainAndMarked ⟨"marked.xml"⟩ = true := by
    rw [TypeStore.marks, TypeStore.marks, hplain, hmarked]
    decide
  obtain ⟨-, selected, hall, -, hselected, -⟩ := selection_of_readable hreadable
  refine ⟨hreadable, hall.trans (congrArg Except.ok (hselected.trans ?_))⟩
  simp [rowAndMain, missingNames, isMarkedLayout, hmarks, firstOfEach, LayoutData.missingLayouts,
    Binding.missingLayout?, missingInclude]

/-! ## Layouts with different names -/

/-- Layouts with different names are selected if they are marked. -/
theorem all_eq_ok_iff (hnodup : (layouts.map LayoutData.layout).Nodup) :
    all tree layouts = .ok selected ↔ (∀ d ∈ layouts, IsReadable tree d) ∧
      selected = firsts LayoutData.layout (layouts.filter (isMarkedLayout tree))
        ((layouts.flatMap LayoutData.missingLayouts).map LayoutData.empty) := by
  have hsub : ((layouts.filter (isMarkedLayout tree)).map LayoutData.layout).Nodup :=
    hnodup.sublist (List.filter_sublist.map _)
  have hfirst : firstOfEach LayoutData.layout (layouts.filter (isMarkedLayout tree)) =
      layouts.filter (isMarkedLayout tree) := by
    rw [← firsts_nil_eq_firstOfEach, firsts_eq_append (by simpa using hsub), List.nil_append]
  rw [all_eq_ok_iff_firsts, hfirst]

theorem nodup_selected (hnodup : (layouts.map LayoutData.layout).Nodup)
    (h : all tree layouts = .ok selected) : (selected.map LayoutData.layout).Nodup := by
  obtain ⟨-, rfl⟩ := (all_eq_ok_iff hnodup).1 h
  exact nodup_firsts (hnodup.sublist (List.filter_sublist.map _)) _

/-- The empty layouts of a list of names, at one of the names. -/
theorem find?_map_empty {names : List String} {d : LayoutData} :
    ((names.map LayoutData.empty).find? fun e => e.layout == d.layout) = some d ↔
      d.layout ∈ names ∧ d = .empty d.layout := by
  induction names with
  | nil => simp
  | cons name names ih =>
      rw [List.map_cons, List.find?_cons, List.mem_cons]
      by_cases hname : d.layout = name
      · have hb : ((LayoutData.empty name).layout == d.layout) = true :=
          beq_iff_eq.2 hname.symm
        rw [hb]
        constructor
        · intro h
          exact ⟨Or.inl hname, by rw [hname, Option.some.inj h]⟩
        · rintro ⟨-, h⟩
          show some (LayoutData.empty name) = some d
          rw [h, hname]
      · have hb : ((LayoutData.empty name).layout == d.layout) = false :=
          beq_eq_false_iff_ne.2 (Ne.symm hname)
        rw [hb]
        simp only [hname, false_or]
        exact ih

/-- **Which layouts are selected.** -/
theorem mem_selected_iff (hnodup : (layouts.map LayoutData.layout).Nodup)
    (h : all tree layouts = .ok selected) :
    d ∈ selected ↔ (d ∈ layouts ∧ isMarkedLayout tree d = true) ∨
      (∀ e ∈ layouts, isMarkedLayout tree e = true → e.layout ≠ d.layout) ∧
        d.layout ∈ layouts.flatMap LayoutData.missingLayouts ∧ d = .empty d.layout := by
  obtain ⟨-, rfl⟩ := (all_eq_ok_iff hnodup).1 h
  have hkept : ((layouts.filter (isMarkedLayout tree)).map LayoutData.layout).Nodup :=
    hnodup.sublist (List.filter_sublist.map _)
  rw [mem_firsts_iff hkept, List.mem_filter, find?_map_empty]
  refine or_congr_right (and_congr_left fun _ => ?_)
  rw [List.mem_map, not_exists]
  constructor
  · exact fun hno e he hmarked heq => hno e ⟨List.mem_filter.2 ⟨he, hmarked⟩, heq⟩
  · rintro hno e ⟨he, heq⟩
    obtain ⟨he, hmarked⟩ := List.mem_filter.1 he
    exact hno e he hmarked heq

/-- A name is among the selected if its layout is marked, or if it is missing. -/
theorem exists_selected_iff (hnodup : (layouts.map LayoutData.layout).Nodup)
    (h : all tree layouts = .ok selected) (layout : String) :
    (∃ e ∈ selected, e.layout = layout) ↔
      (∃ e ∈ layouts, e.layout = layout ∧ isMarkedLayout tree e = true) ∨
        layout ∈ layouts.flatMap LayoutData.missingLayouts := by
  constructor
  · rintro ⟨e, he, rfl⟩
    rcases (mem_selected_iff hnodup h).1 he with ⟨he, hmarked⟩ | ⟨-, hmissing, -⟩
    · exact Or.inl ⟨e, he, rfl, hmarked⟩
    · exact Or.inr hmissing
  · by_cases hmarked : ∃ e ∈ layouts, e.layout = layout ∧ isMarkedLayout tree e = true
    · obtain ⟨e, he, hname, hmarked⟩ := hmarked
      exact fun _ => ⟨e, (mem_selected_iff hnodup h).2 (Or.inl ⟨he, hmarked⟩), hname⟩
    · rintro (hyes | hmissing)
      · exact absurd hyes hmarked
      · refine ⟨.empty layout, (mem_selected_iff hnodup h).2 (Or.inr ⟨?_, hmissing, rfl⟩), rfl⟩
        exact fun e he hm heq => hmarked ⟨e, he, heq, hm⟩

/-- **The selection does not depend on the order of the layouts**, up to its own order. -/
theorem exists_all_of_perm {layouts' : List LayoutData} (hperm : layouts.Perm layouts')
    (hnodup : (layouts.map LayoutData.layout).Nodup) (h : all tree layouts = .ok selected) :
    ∃ selected', all tree layouts' = .ok selected' ∧ selected.Perm selected' := by
  have hnodup' : (layouts'.map LayoutData.layout).Nodup :=
    (hperm.map LayoutData.layout).nodup_iff.1 hnodup
  obtain ⟨hreadable, -⟩ := (all_eq_ok_iff hnodup).1 h
  have h' := (all_eq_ok_iff hnodup').2
    ⟨fun d hd => hreadable d (hperm.mem_iff.2 hd), rfl⟩
  refine ⟨_, h', ?_⟩
  rw [List.perm_ext_iff_of_nodup (.of_map _ (nodup_selected hnodup h))
    (.of_map _ (nodup_selected hnodup' h'))]
  intro d
  rw [mem_selected_iff hnodup h, mem_selected_iff hnodup' h', hperm.mem_iff,
    (hperm.flatMap_right LayoutData.missingLayouts).mem_iff]
  refine or_congr_right (and_congr_left fun _ => forall_congr' fun e => ?_)
  rw [hperm.mem_iff]

end Selection
end ResourceStubs
