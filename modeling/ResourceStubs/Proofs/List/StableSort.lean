import Mathlib.Data.List.Sort
import Mathlib.Data.String.Basic

/-!
# Sorting by a key

`sortedBy key l` is `l` in the order of a key, where elements with one key keep the order
that they had.  No other list is ordered and has, for each key, the same elements in the same
order (`eq_of_pairwise_of_filter`), so these two facts are all that is needed of the sort.

* `filter_sortedBy`: what is left of a sorted list is sorted from what is left of the list.
* `map_sortedBy`: elements may be changed before they are sorted, or after.
* `sortedBy_cons_of_first`: what comes before everything else is sorted to the front.
* `sortedBy_append_prefix`: a text in front of every key changes nothing.
* `sortedBy_eq_insertionSort`: inserting one element after the other gives the same list.
-/

namespace ResourceStubs

variable {α β κ : Type} [LinearOrder κ] {key key' : α → κ} {l l' : List α}

/-- The list in the order of a key. -/
def sortedBy (key : α → κ) (l : List α) : List α :=
  l.mergeSort fun a b => decide (key a ≤ key b)

/-! ## Ordered, and with ties as they were -/

theorem decide_key_le_trans (key : α → κ) (a b c : α) (hab : decide (key a ≤ key b) = true)
    (hbc : decide (key b ≤ key c) = true) : decide (key a ≤ key c) = true :=
  decide_eq_true (le_trans (of_decide_eq_true hab) (of_decide_eq_true hbc))

theorem decide_key_le_total (key : α → κ) (a b : α) :
    (decide (key a ≤ key b) || decide (key b ≤ key a)) = true := by
  rw [Bool.or_eq_true, decide_eq_true_iff, decide_eq_true_iff]
  exact le_total (key a) (key b)

theorem sortedBy_perm (key : α → κ) (l : List α) : (sortedBy key l).Perm l :=
  List.mergeSort_perm _ _

theorem pairwise_sortedBy (key : α → κ) (l : List α) :
    (sortedBy key l).Pairwise fun a b => key a ≤ key b :=
  (List.pairwise_mergeSort (decide_key_le_trans key) (decide_key_le_total key) l).imp
    fun h => of_decide_eq_true h

/-- Elements with one key are ordered as they are. -/
theorem pairwise_filter_key (key : α → κ) (l : List α) (k : κ) :
    (l.filter fun a => key a = k).Pairwise fun a b => key a ≤ key b := by
  refine List.pairwise_of_forall_mem_list fun a ha b hb => ?_
  have hak : key a = k := of_decide_eq_true (List.mem_filter.1 ha).2
  have hbk : key b = k := of_decide_eq_true (List.mem_filter.1 hb).2
  rw [hak, hbk]

theorem filter_key_of_sublist {k : κ} (hperm : l'.Perm l)
    (h : (l.filter fun a => key a = k).Sublist l') :
    (l'.filter fun a => key a = k) = l.filter fun a => key a = k := by
  have hfiltered := h.filter fun a => decide (key a = k)
  rw [List.filter_filter] at hfiltered
  simp only [Bool.and_self] at hfiltered
  exact (hfiltered.eq_of_length (hperm.filter fun a => decide (key a = k)).length_eq.symm).symm

/-- Elements with one key keep their order. -/
theorem filter_key_sortedBy (key : α → κ) (l : List α) (k : κ) :
    ((sortedBy key l).filter fun a => key a = k) = l.filter fun a => key a = k :=
  filter_key_of_sublist (sortedBy_perm key l)
    (List.sublist_mergeSort (decide_key_le_trans key) (decide_key_le_total key)
      ((pairwise_filter_key key l k).imp fun h => decide_eq_true h) List.filter_sublist)

theorem mem_iff_of_filter (h : ∀ k, (l.filter fun a => key a = k) = l'.filter fun a => key a = k)
    (a : α) : a ∈ l ↔ a ∈ l' := by
  have hmem : ∀ l : List α, a ∈ l ↔ a ∈ l.filter fun b => key b = key a := by
    intro l
    rw [List.mem_filter, decide_eq_true rfl, and_iff_left rfl]
  rw [hmem l, hmem l', h]

/-- **Ordered lists with the same ties are equal.** -/
theorem eq_of_pairwise_of_filter (hl : l.Pairwise fun a b => key a ≤ key b)
    (hl' : l'.Pairwise fun a b => key a ≤ key b)
    (h : ∀ k, (l.filter fun a => key a = k) = l'.filter fun a => key a = k) : l = l' := by
  induction l generalizing l' with
  | nil =>
      refine (List.eq_nil_iff_forall_not_mem.2 fun a ha => ?_).symm
      exact List.not_mem_nil ((mem_iff_of_filter h a).2 ha)
  | cons a l ih =>
      obtain ⟨hfirst, hrest⟩ := List.pairwise_cons.1 hl
      cases l' with
      | nil => exact absurd ((mem_iff_of_filter h a).1 List.mem_cons_self) List.not_mem_nil
      | cons b l' =>
          obtain ⟨hfirst', hrest'⟩ := List.pairwise_cons.1 hl'
          -- each list begins with one of its least keys, so both begin with the same key
          have hab : key a ≤ key b := by
            rcases List.mem_cons.1 ((mem_iff_of_filter h b).2 List.mem_cons_self) with rfl | hb
            · exact le_rfl
            · exact hfirst b hb
          have hba : key b ≤ key a := by
            rcases List.mem_cons.1 ((mem_iff_of_filter h a).1 List.mem_cons_self) with rfl | ha
            · exact le_rfl
            · exact hfirst' a ha
          have hkey : key b = key a := le_antisymm hba hab
          have hties := h (key a)
          rw [List.filter_cons, List.filter_cons, if_pos (decide_eq_true rfl),
            if_pos (decide_eq_true hkey)] at hties
          obtain ⟨rfl, htail⟩ := List.cons.inj hties
          rw [ih hrest hrest' fun k => ?_]
          by_cases hk : key a = k
          · rw [← hk]
            exact htail
          · have hne : ¬decide (key a = k) = true := by rwa [decide_eq_true_iff]
            have hk' := h k
            rwa [List.filter_cons, List.filter_cons, if_neg hne, if_neg hne] at hk'

/-- **Inserting one element after the other** gives the same list. -/
theorem sortedBy_eq_insertionSort (key : α → κ) (l : List α) :
    sortedBy key l = l.insertionSort fun a b => key a ≤ key b := by
  have : Std.Total fun a b : α => key a ≤ key b := ⟨fun a b => le_total (key a) (key b)⟩
  have : IsTrans α fun a b => key a ≤ key b := ⟨fun _ _ _ => le_trans⟩
  refine eq_of_pairwise_of_filter (pairwise_sortedBy key l)
    (List.pairwise_insertionSort _ l) fun k => ?_
  rw [filter_key_sortedBy]
  exact (filter_key_of_sublist (List.perm_insertionSort _ l)
    (List.sublist_insertionSort (pairwise_filter_key key l k) List.filter_sublist)).symm

/-! ## Sorting what was filtered or changed -/

/-- **What is left of a sorted list** is sorted from what is left of the list. -/
theorem filter_sortedBy (key : α → κ) (keep : α → Bool) (l : List α) :
    (sortedBy key l).filter keep = sortedBy key (l.filter keep) := by
  refine eq_of_pairwise_of_filter ((pairwise_sortedBy key l).filter keep)
    (pairwise_sortedBy key _) fun k => ?_
  rw [filter_key_sortedBy, List.filter_comm, filter_key_sortedBy, List.filter_comm]

theorem map_sortedBy (key : β → κ) (f : α → β) (l : List α) :
    (sortedBy (fun a => key (f a)) l).map f = sortedBy key (l.map f) :=
  List.map_mergeSort fun _ _ _ _ => rfl

theorem sortedBy_congr (h : ∀ a b, key a ≤ key b ↔ key' a ≤ key' b) (l : List α) :
    sortedBy key l = sortedBy key' l := by
  unfold sortedBy
  congr 1
  funext a b
  exact decide_eq_decide.2 (h a b)

/-- What comes before everything else is sorted to the front. -/
theorem sortedBy_cons_of_first {a : α} (hfirst : ∀ b ∈ l, key a ≤ key b) :
    sortedBy key (a :: l) = a :: sortedBy key l := by
  refine eq_of_pairwise_of_filter (pairwise_sortedBy key _)
    (List.pairwise_cons.2 ⟨fun b hb => ?_, pairwise_sortedBy key l⟩) fun k => ?_
  · exact hfirst b ((sortedBy_perm key l).mem_iff.1 hb)
  · rw [filter_key_sortedBy, List.filter_cons, List.filter_cons, filter_key_sortedBy]

/-! ## Texts as keys -/

theorem compare_isLE_eq_decide_le (s t : String) : (compare s t).isLE = decide (s ≤ t) := by
  rw [Bool.eq_iff_iff, decide_eq_true_iff, ← compare_le_iff_le]
  cases compare s t <;> decide

theorem mergeSort_compare_eq_sortedBy (key : α → String) (l : List α) :
    (l.mergeSort fun a b => (compare (key a) (key b)).isLE) = sortedBy key l := by
  unfold sortedBy
  congr 1
  funext a b
  exact compare_isLE_eq_decide_le _ _

theorem append_le_append_iff (p s t : String) : p ++ s ≤ p ++ t ↔ s ≤ t := by
  have hmono : ∀ {s t : String}, s < t → p ++ s < p ++ t := by
    intro s t h
    rw [String.lt_iff_toList_lt, String.toList_append, String.toList_append]
    exact List.append_left_lt (String.lt_iff_toList_lt.1 h)
  constructor
  · intro h
    by_contra hlt
    exact absurd (hmono (not_le.1 hlt)) (not_lt.2 h)
  · intro h
    rcases h.eq_or_lt with rfl | h
    · exact le_rfl
    · exact (hmono h).le

/-- A text in front of every key changes nothing. -/
theorem sortedBy_append_prefix (p : String) (key : α → String) (l : List α) :
    sortedBy (fun a => p ++ key a) l = sortedBy key l :=
  sortedBy_congr (fun a b => append_le_append_iff p (key a) (key b)) l

end ResourceStubs
