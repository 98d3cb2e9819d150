import Mathlib.Data.List.Sort
import ResourceStubs.Proofs.File.Components

/-!
# Sorted paths without repeats

Paths that were sorted stand in the order of their components, and those in one place stand
together.  So it is enough to drop a path that is in the same place as the one before it: what is
left increases strictly (`pairwise_dropRepeats`), and every place is still there
(`mem_map_components_dropRepeats`).

A list that increases strictly is known by its places (`map_components_eq_of_mem_iff`), however
the paths in it are written.
-/

namespace ResourceStubs
namespace Path

open Std

variable {p : Path} {files : List Path}

theorem cmp_eq (p q : Path) : cmp p q = componentsCmp p.components q.components := rfl

theorem pairwise_sort (files : List Path) : (sort files).Pairwise fun p q => p.le q = true := by
  refine List.pairwise_mergeSort (fun p q r hpq hqr => ?_) (fun p q => ?_) files
  · rw [le_eq] at hpq hqr ⊢
    exact TransCmp.isLE_trans hpq hqr
  · rw [le_eq, le_eq]
    exact componentsCmp_total p.components q.components

/-- Of two paths in order that are not in the same place, the first stands before the second. -/
theorem cmp_eq_lt_of_le {p q : Path} (hle : p.le q = true) (hsame : ¬p.same q = true) :
    cmp p q = .lt := by
  rw [le_eq] at hle
  rw [same_iff] at hsame
  rw [cmp_eq]
  cases hc : componentsCmp p.components q.components with
  | lt => rfl
  | eq => exact absurd (LawfulEqCmp.eq_of_compare hc) hsame
  | gt =>
      rw [hc] at hle
      exact absurd hle (by decide)

/-! ## Dropping repeats -/

theorem dropRepeats_subset (files : List Path) : dropRepeats files ⊆ files := by
  induction files using dropRepeats.induct with
  | case1 => simp [dropRepeats]
  | case2 p => simp [dropRepeats]
  | case3 p q rest hsame ih =>
      rw [dropRepeats, if_pos hsame]
      exact List.Subset.trans ih (by simp)
  | case4 p q rest hsame ih =>
      rw [dropRepeats, if_neg hsame]
      exact List.cons_subset_cons p ih

/-- **No place is lost.** -/
theorem mem_map_components_dropRepeats (files : List Path) (place : List Component) :
    place ∈ (dropRepeats files).map components ↔ place ∈ files.map components := by
  induction files using dropRepeats.induct with
  | case1 => simp [dropRepeats]
  | case2 p => simp [dropRepeats]
  | case3 p q rest hsame ih =>
      rw [dropRepeats, if_pos hsame, ih, List.map_cons, List.map_cons, List.map_cons,
        ← same_iff.1 hsame, List.mem_cons, List.mem_cons, List.mem_cons, ← or_assoc, or_self]
  | case4 p q rest hsame ih =>
      rw [dropRepeats, if_neg hsame, List.map_cons, List.mem_cons, ih, List.map_cons (a := p),
        List.mem_cons]

/-- **What is left of a sorted list increases strictly.** -/
theorem pairwise_dropRepeats (h : files.Pairwise fun p q => p.le q = true) :
    (dropRepeats files).Pairwise fun p q => cmp p q = .lt := by
  induction files using dropRepeats.induct with
  | case1 => simp [dropRepeats]
  | case2 p => simp [dropRepeats]
  | case3 p q rest hsame ih =>
      rw [dropRepeats, if_pos hsame]
      exact ih (h.sublist ((List.sublist_cons_self q rest).cons_cons p))
  | case4 p q rest hsame ih =>
      obtain ⟨hfirst, hrest⟩ := List.pairwise_cons.1 h
      rw [dropRepeats, if_neg hsame]
      refine List.pairwise_cons.2 ⟨fun x hx => ?_, ih hrest⟩
      have hpq := cmp_eq_lt_of_le (hfirst q List.mem_cons_self) hsame
      -- the second path stands before everything behind it, and the first before the second
      rcases List.mem_cons.1 (dropRepeats_subset _ hx) with rfl | hx
      · exact hpq
      · have hqx := (List.pairwise_cons.1 hrest).1 x hx
        rw [cmp_eq] at hpq ⊢
        rw [le_eq] at hqx
        exact TransCmp.lt_of_lt_of_isLE hpq hqx

/-! ## Lists that increase strictly -/

/-- Does one place stand before another? -/
def StandsBefore (place other : List Component) : Prop :=
  componentsCmp place other = .lt

instance : Std.Antisymm StandsBefore :=
  ⟨fun _ _ h h' => absurd h' (OrientedCmp.not_lt_of_lt h)⟩

instance : Std.Irrefl StandsBefore :=
  ⟨fun _ h => OrientedCmp.not_lt_of_lt h h⟩

theorem pairwise_map_components (h : files.Pairwise fun p q => cmp p q = .lt) :
    (files.map components).Pairwise StandsBefore :=
  List.pairwise_map.2 h

/-- **Lists that increase strictly and have the same places** are the same, but for how their
paths are written. -/
theorem map_components_eq_of_mem_iff {files' : List Path}
    (h : files.Pairwise fun p q => cmp p q = .lt) (h' : files'.Pairwise fun p q => cmp p q = .lt)
    (hplaces : ∀ place, place ∈ files.map components ↔ place ∈ files'.map components) :
    files.map components = files'.map components :=
  (pairwise_map_components h).eq_of_mem_iff (pairwise_map_components h') hplaces

end Path
end ResourceStubs
