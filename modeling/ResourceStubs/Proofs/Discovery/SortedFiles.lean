import ResourceStubs.Discovery.Resources
import ResourceStubs.Proofs.File.SortedPaths

/-!
# The discovered files as a sorted set

Walks come by files in no order that can be relied on, and walks from overlapping directories
come by some of them again.  Of this nothing is left in the end: the discovered files increase
strictly, and they are at exactly the places where a walk comes by a file that is a resource and
is not excluded (`mem_map_components_resourcesBy`).  Only how the path of such a place is written
may depend on the walks.

A `Walker` is whatever tells, for a directory that is there, what a walk from it comes by: files,
and other things that are passed over.  The walks of a tree are those of such a walker
(`Tree.walk_eq_files_walker`), so what is said of every walker here is said of what is discovered
in a tree (`resources_eq`).
-/

namespace ResourceStubs

open ResourceStubs.Path

/-! ## Walkers -/

namespace Discovery

/-- Something that a walk comes by. -/
structure Sight where
  path : Path
  isFile : Bool
  deriving DecidableEq, Repr

/-- Which directories are there, and what a walk from each of them comes by. -/
structure Walker where
  isThere : Path → Bool
  comesBy : Path → List Sight

namespace Walker

variable {w w' : Walker} {dir p : Path}

/-- The files that a walk from a directory comes by. -/
def files (w : Walker) (dir : Path) : List Path :=
  if w.isThere dir then ((w.comesBy dir).filter Sight.isFile).map Sight.path else []

/-- Does a walk from one of the directories come by a file with this path? -/
def Finds (w : Walker) (dirs : List Path) (p : Path) : Prop :=
  ∃ dir ∈ dirs, w.isThere dir = true ∧ ⟨p, true⟩ ∈ w.comesBy dir

/-- Do two walkers come by the same from a directory, in whatever order? -/
structure Agrees (w w' : Walker) (dir : Path) : Prop where
  isThere : w'.isThere dir = w.isThere dir
  comesBy : w.isThere dir = true → (w'.comesBy dir).Perm (w.comesBy dir)

theorem mem_files_iff : p ∈ w.files dir ↔ w.isThere dir = true ∧ ⟨p, true⟩ ∈ w.comesBy dir := by
  rw [files]
  split
  · rename_i hthere
    rw [and_iff_right hthere, List.mem_map]
    constructor
    · rintro ⟨⟨path, isFile⟩, hsight, rfl⟩
      obtain ⟨hmem, rfl⟩ : _ ∧ isFile = true := List.mem_filter.1 hsight
      exact hmem
    · exact fun hmem => ⟨_, List.mem_filter.2 ⟨hmem, rfl⟩, rfl⟩
  · rename_i hthere
    simp [hthere]

theorem Agrees.mem_files_iff (h : w.Agrees w' dir) : p ∈ w'.files dir ↔ p ∈ w.files dir := by
  rw [Walker.mem_files_iff, Walker.mem_files_iff, h.isThere]
  exact and_congr_right fun hthere => (h.comesBy hthere).mem_iff

end Walker
end Discovery

/-! ## The walks of a tree -/

namespace Tree

open Discovery

/-- What a walk from a directory comes by at a place below it, if it sees everything on the way
there. -/
def sightBelow? (t : Tree) (start : Path) (dir : Place) (x : Place × Entry) : Option Sight := do
  let names ← namesBelow? dir x.1
  if t.isSeen dir names then
    some ⟨names.foldl (fun p n => p.join ⟨n⟩) start, x.2 matches .file _⟩
  else none

/-- The walker of a tree. -/
def walker (t : Tree) : Walker where
  isThere := t.isPresent
  comesBy start :=
    if start.text = "-" then []
    else match t.target? start with
      | some (.found _ (.file _)) => [⟨start, true⟩]
      | some (.found dir .directory) => t.entries.filterMap (t.sightBelow? start dir)
      | _ => []

/-- **The walks of a tree are those of its walker.** -/
theorem walk_eq_files_walker (t : Tree) : t.walk = t.walker.files := by
  funext start
  rw [walk, Walker.files, walker]
  dsimp only
  unfold isPresent
  split
  · simp
  · rcases t.target? start with _ | ⟨dir, content | _ | target⟩ | place
    · simp
    · simp
    · -- a place below the directory is a file of the walk if it is seen and has a file
      rw [if_pos rfl, List.filter_filterMap, List.map_filterMap]
      refine List.filterMap_congr fun x _ => ?_
      obtain ⟨place, e⟩ := x
      rw [sightBelow?]
      rcases hnames : namesBelow? dir place with _ | names
      · cases e <;> simp [hnames]
      · by_cases hseen : t.isSeen dir names = true
        · cases e <;> simp [hnames, hseen]
        · cases e <;> simp [hnames, hseen]
    · simp
    · simp

end Tree

/-! ## What is discovered -/

namespace Discovery

variable {walk walk' : Path → List Path} {s : Settings} {dirs dirs' : List Path} {p : Path}

/-- What is discovered in a tree is what its walker leads to. -/
theorem resources_eq (t : Tree) (s : Settings) (dirs : List Path) :
    resources t s dirs = resourcesBy t.walker.files s dirs := by
  rw [resources, t.walk_eq_files_walker]

theorem admits_iff :
    admits s p = true ↔ s.excludes p = false ∧ (ResourceLocation.ofPath? p).isSome := by
  rw [admits, Bool.and_eq_true, Bool.not_eq_true']

theorem mem_sort_iff :
    p ∈ sort ((dirs.flatMap walk).filter (admits s)) ↔
      (∃ dir ∈ dirs, p ∈ walk dir) ∧ admits s p = true := by
  rw [sort, List.mem_mergeSort, List.mem_filter, List.mem_flatMap]

/-- What is discovered was found by a walk. -/
theorem of_mem_resourcesBy (h : p ∈ resourcesBy walk s dirs) :
    (∃ dir ∈ dirs, p ∈ walk dir) ∧ admits s p = true :=
  mem_sort_iff.1 (dropRepeats_subset _ h)

/-- What is discovered is admitted, whatever the walks find. -/
theorem admits_of_mem_resourcesBy (h : p ∈ resourcesBy walk s dirs) : admits s p = true :=
  (of_mem_resourcesBy h).2

/-- **Every place of a resource is discovered, and no other.** -/
theorem mem_map_components_resourcesBy {place : List Component} :
    place ∈ (resourcesBy walk s dirs).map components ↔
      ∃ p, ((∃ dir ∈ dirs, p ∈ walk dir) ∧ admits s p = true) ∧ p.components = place := by
  rw [resourcesBy, collect, mem_map_components_dropRepeats, List.mem_map]
  exact exists_congr fun p => and_congr_left' mem_sort_iff

theorem pairwise_resourcesBy (walk : Path → List Path) (s : Settings) (dirs : List Path) :
    (resourcesBy walk s dirs).Pairwise fun p q => p.cmp q = .lt :=
  pairwise_dropRepeats (pairwise_sort _)

/-- Walks that find the same from the same directories lead to the same places. -/
theorem map_components_resourcesBy_congr (hdirs : ∀ dir, dir ∈ dirs' ↔ dir ∈ dirs)
    (hwalk : ∀ dir ∈ dirs, ∀ p, p ∈ walk' dir ↔ p ∈ walk dir) :
    (resourcesBy walk' s dirs').map components = (resourcesBy walk s dirs).map components := by
  refine map_components_eq_of_mem_iff (pairwise_resourcesBy _ _ _) (pairwise_resourcesBy _ _ _)
    fun place => ?_
  rw [mem_map_components_resourcesBy, mem_map_components_resourcesBy]
  refine exists_congr fun p => and_congr_left' (and_congr_left' (exists_congr fun dir => ?_))
  rw [hdirs]
  exact and_congr_right fun hdir => hwalk dir hdir p

/-- **The discovered files are a sorted set.**

Let walks from some directories come by files and by other things; nothing is asked of the
directories, which may overlap, be repeated or be missing.  The discovered files increase strictly
in the order of paths.  Each is a file that a walk comes by, that is not excluded and that is in a
directory of resources, and for every such file there is one in the same place.  Other walks that
come by the same things, in another order, from the same directories, in another order and with
other repetitions, lead to the same files, place by place. -/
theorem discovered_sorted_set (w : Walker) (s : Settings) (dirs : List Path) :
    (resourcesBy w.files s dirs).Pairwise (fun p q => p.cmp q = .lt) ∧
    (∀ p ∈ resourcesBy w.files s dirs,
      w.Finds dirs p ∧ s.excludes p = false ∧ (ResourceLocation.ofPath? p).isSome) ∧
    (∀ p, w.Finds dirs p → s.excludes p = false → (ResourceLocation.ofPath? p).isSome →
      ∃ q ∈ resourcesBy w.files s dirs, q.same p = true) ∧
    ∀ (w' : Walker) (dirs' : List Path), (∀ dir, dir ∈ dirs' ↔ dir ∈ dirs) →
      (∀ dir ∈ dirs, w.Agrees w' dir) →
      List.Forall₂ (fun p q => p.same q = true)
        (resourcesBy w'.files s dirs') (resourcesBy w.files s dirs) := by
  have hfinds : ∀ p, (∃ dir ∈ dirs, p ∈ w.files dir) ↔ w.Finds dirs p := fun p =>
    exists_congr fun dir => and_congr_right fun _ => Walker.mem_files_iff
  refine ⟨pairwise_resourcesBy _ _ _, fun p hp => ?_, fun p hp hexcluded hlocation => ?_,
    fun w' dirs' hdirs hagrees => ?_⟩
  · obtain ⟨hmem, hadmits⟩ := of_mem_resourcesBy hp
    exact ⟨(hfinds p).1 hmem, admits_iff.1 hadmits⟩
  · have hplace : p.components ∈ (resourcesBy w.files s dirs).map components :=
      mem_map_components_resourcesBy.2
        ⟨p, ⟨(hfinds p).2 hp, admits_iff.2 ⟨hexcluded, hlocation⟩⟩, rfl⟩
    obtain ⟨q, hq, hqp⟩ := List.mem_map.1 hplace
    exact ⟨q, hq, same_iff.2 hqp⟩
  · have hplaces := map_components_resourcesBy_congr (s := s) hdirs
      fun dir hdir p => (hagrees dir hdir).mem_files_iff (p := p)
    rw [← List.forall₂_eq_eq_eq, List.forall₂_map_left_iff, List.forall₂_map_right_iff] at hplaces
    exact hplaces.imp fun _ _ h => same_iff.2 h

/-- A directory with two resources, one of them a copy, and two things that are none; it is there
under every name but one. -/
def smallWalker : Walker where
  isThere dir := dir.text != "gone"
  comesBy dir :=
    [⟨dir.join ⟨"values"⟩, false⟩, ⟨dir.join ⟨"values/a.xml"⟩, true⟩,
      ⟨dir.join ⟨"raw/b.json.orig"⟩, true⟩, ⟨dir.join ⟨"notes/todo.txt"⟩, true⟩]

/-- The same directory, walked in the opposite order. -/
def smallWalkerReversed : Walker where
  isThere := smallWalker.isThere
  comesBy dir := (smallWalker.comesBy dir).reverse

theorem agrees_smallWalkerReversed (dir : Path) : smallWalker.Agrees smallWalkerReversed dir where
  isThere := rfl
  comesBy _ := List.reverse_perm _

/-- One directory under two names, one of them given twice, and a directory that is missing. -/
def overlapping : List Path := [⟨"res"⟩, ⟨"gone"⟩, ⟨"res/."⟩, ⟨"res"⟩]

/-- Overlapping directories lead to one file, in whatever order they are walked. -/
theorem discovered_sorted_set_overlapping :
    let s : Settings := { exclude := ["*.orig"] }
    (∃ p ∈ resourcesBy smallWalker.files s overlapping,
      p.same ⟨"res/values/a.xml"⟩ = true) ∧
    (∀ p ∈ resourcesBy smallWalker.files s overlapping,
      p.same ⟨"res/values/a.xml"⟩ = true) ∧
    List.Forall₂ (fun p q => p.same q = true)
      (resourcesBy smallWalkerReversed.files s [⟨"res/."⟩, ⟨"res"⟩, ⟨"gone"⟩])
      (resourcesBy smallWalker.files s overlapping) := by
  intro s
  obtain ⟨-, hfound, hall, hagain⟩ := discovered_sorted_set smallWalker s overlapping
  have hone : ∀ dir ∈ overlapping, ∀ x ∈ smallWalker.comesBy dir,
      smallWalker.isThere dir = true → x.isFile = true → s.excludes x.path = false →
        (ResourceLocation.ofPath? x.path).isSome = true →
          x.path.same ⟨"res/values/a.xml"⟩ = true := by decide +kernel
  have hfinds : smallWalker.Finds overlapping ⟨"res/values/a.xml"⟩ :=
    ⟨⟨"res"⟩, by decide, by decide, by decide +kernel⟩
  have hdirs : ∀ dir, dir ∈ [(⟨"res/."⟩ : Path), ⟨"res"⟩, ⟨"gone"⟩] ↔ dir ∈ overlapping := by
    intro dir
    simp only [overlapping, List.mem_cons, List.not_mem_nil, or_false]
    tauto
  refine ⟨hall ⟨"res/values/a.xml"⟩ hfinds (by decide +kernel) (by decide +kernel), fun p hp => ?_,
    hagain smallWalkerReversed _ hdirs fun dir _ => agrees_smallWalkerReversed dir⟩
  obtain ⟨⟨dir, hdir, hthere, hsight⟩, hexcluded, hlocation⟩ := hfound p hp
  exact hone dir hdir ⟨p, true⟩ hsight hthere rfl hexcluded hlocation

end Discovery
end ResourceStubs
