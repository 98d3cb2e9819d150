import Mathlib.Data.List.Sort
import Mathlib.Data.String.Basic
import ResourceStubs.Binding.BrClass

/-!
# The names in `BR`

The names of the bindables are put where they belong one after the other.  So they ascend
strictly (`pairwise_names`), and they are the names of the bindables and no others
(`mem_names_iff`).  An ascending list is determined by what is in it: layouts whose bindables
have the same names get the same class (`render_congr`), in whatever order they come
(`render_of_perm`).
-/

namespace ResourceStubs
namespace BrClass

open Std

variable {name x : String} {l : List String}

theorem mem_insertName_iff : x ∈ insertName name l ↔ x = name ∨ x ∈ l := by
  induction l with
  | nil => rw [insertName, List.mem_singleton, or_iff_left List.not_mem_nil]
  | cons y rest ih =>
      rw [insertName]
      split
      · rw [List.mem_cons]
      · rename_i heq
        have hy : name = y := LawfulEqCmp.eq_of_compare heq
        rw [hy, List.mem_cons, or_self_left]
      · rw [List.mem_cons, ih, List.mem_cons, or_left_comm]

/-- Putting a name where it belongs keeps the order. -/
theorem pairwise_insertName (h : l.Pairwise (· < ·)) :
    (insertName name l).Pairwise (· < ·) := by
  induction l with
  | nil => exact List.pairwise_singleton _ _
  | cons y rest ih =>
      obtain ⟨hy, hrest⟩ := List.pairwise_cons.1 h
      rw [insertName]
      split
      · rename_i hlt
        have hname : name < y := compare_lt_iff_lt.1 hlt
        refine List.pairwise_cons.2 ⟨fun x hx => ?_, h⟩
        rcases List.mem_cons.1 hx with rfl | hx
        · exact hname
        · exact hname.trans (hy x hx)
      · exact h
      · rename_i hgt
        refine List.pairwise_cons.2 ⟨fun x hx => ?_, ih hrest⟩
        rcases mem_insertName_iff.1 hx with rfl | hx
        · exact compare_gt_iff_gt.1 hgt
        · exact hy x hx

/-- What names put into a list one after the other make of it. -/
theorem foldl_insertName (more : List String) (h : l.Pairwise (· < ·)) :
    (more.foldl (fun l name => insertName name l) l).Pairwise (· < ·) ∧
      ∀ x, x ∈ more.foldl (fun l name => insertName name l) l ↔ x ∈ l ∨ x ∈ more := by
  induction more generalizing l with
  | nil => exact ⟨h, fun x => (or_iff_left List.not_mem_nil).symm⟩
  | cons name more ih =>
      obtain ⟨hpairwise, hmem⟩ := ih (pairwise_insertName h)
      refine ⟨hpairwise, fun x => (hmem x).trans ?_⟩
      rw [mem_insertName_iff, List.mem_cons, or_assoc, or_left_comm]

variable {layouts layouts' : List LayoutData}

/-- **The names in `BR` ascend strictly.** -/
theorem pairwise_names (layouts : List LayoutData) : (names layouts).Pairwise (· < ·) :=
  (foldl_insertName _ List.Pairwise.nil).1

/-- **The names in `BR` are the names of the bindables.** -/
theorem mem_names_iff :
    name ∈ names layouts ↔ ∃ d ∈ layouts, ∃ b ∈ d.bindables, b.name = name := by
  rw [names, (foldl_insertName _ List.Pairwise.nil).2, or_iff_right List.not_mem_nil,
    List.mem_flatMap]
  exact exists_congr fun d => and_congr_right fun _ => List.mem_map

/-- **The class `BR` depends on the set of names only.** -/
theorem render_congr (package : String)
    (h : ∀ name, (∃ d ∈ layouts, ∃ b ∈ d.bindables, b.name = name) ↔
      ∃ d ∈ layouts', ∃ b ∈ d.bindables, b.name = name) :
    render package layouts = render package layouts' := by
  have hnames : names layouts = names layouts' :=
    (pairwise_names layouts).eq_of_mem_iff (pairwise_names layouts') fun name => by
      rw [mem_names_iff, mem_names_iff, h]
  rw [render, render, hnames]

/-- **The class `BR` does not depend on the order of the layouts.** -/
theorem render_of_perm (package : String) (h : layouts.Perm layouts') :
    render package layouts = render package layouts' :=
  render_congr package fun _ => exists_congr fun _ => and_congr_left' h.mem_iff

end BrClass
end ResourceStubs
