import Mathlib.Data.List.Dedup
import Mathlib.Data.List.Perm.Basic

/-!
# Folding over a sorted list

A sorted list is determined by its elements up to repetitions, and in a sorted list
repetitions stand next to each other.  So a fold whose step does nothing the second
time has the same result on all sorted lists with the same elements
(`foldl_eq_of_sorted`).
-/

namespace ResourceStubs

section Fold

variable {α β : Type} [DecidableEq α] {le : α → α → Prop} {f : β → α → β} {P : β → Prop}

/-- What a step over the elements of `l` keeps, and that it does nothing the second
time. -/
structure StepsOnce (P : β → Prop) (f : β → α → β) (l : List α) : Prop where
  keep : ∀ b, P b → ∀ a ∈ l, P (f b a)
  again : ∀ b, P b → ∀ a ∈ l, f (f b a) a = f b a

omit [DecidableEq α] in
theorem StepsOnce.mono {l m : List α} (h : StepsOnce P f l) (hm : m ⊆ l) : StepsOnce P f m :=
  ⟨fun b hb a ha => h.keep b hb a (hm ha), fun b hb a ha => h.again b hb a (hm ha)⟩

/-- In a sorted list, an element that comes again comes again at once. -/
theorem foldl_eq_foldl_dedup {l : List α} (hl : l.Pairwise le)
    (hanti : ∀ a ∈ l, ∀ b ∈ l, le a b → le b a → a = b) (h : StepsOnce P f l) {b : β} (hb : P b) :
    l.foldl f b = l.dedup.foldl f b := by
  induction l generalizing b with
  | nil => rfl
  | cons x l ih =>
      rw [List.pairwise_cons] at hl
      have hsub : l ⊆ x :: l := List.subset_cons_self x l
      have hanti' : ∀ a ∈ l, ∀ c ∈ l, le a c → le c a → a = c :=
        fun a ha c hc => hanti a (hsub ha) c (hsub hc)
      by_cases hx : x ∈ l
      · rw [List.dedup_cons_of_mem hx, ← ih hl.2 hanti' (h.mono hsub) hb]
        -- the list goes on with `x` again
        cases l with
        | nil => exact absurd hx List.not_mem_nil
        | cons z l =>
            have hzx : z = x := by
              rcases List.mem_cons.1 hx with hz | hz
              · exact hz.symm
              · exact hanti z (hsub List.mem_cons_self) x List.mem_cons_self
                  ((List.pairwise_cons.1 hl.2).1 x hz) (hl.1 z List.mem_cons_self)
            rw [hzx, List.foldl_cons, List.foldl_cons, List.foldl_cons,
              h.again b hb x List.mem_cons_self]
      · rw [List.dedup_cons_of_notMem hx, List.foldl_cons, List.foldl_cons]
        exact ih hl.2 hanti' (h.mono hsub) (h.keep b hb x List.mem_cons_self)

/-- **A fold that does nothing the second time depends on the set of elements only.** -/
theorem foldl_eq_of_sorted {l m : List α} (hl : l.Pairwise le) (hm : m.Pairwise le)
    (hanti : ∀ a ∈ l, ∀ b ∈ l, le a b → le b a → a = b) (hlm : ∀ a, a ∈ l ↔ a ∈ m)
    (h : StepsOnce P f l) {b : β} (hb : P b) : l.foldl f b = m.foldl f b := by
  have hanti' : ∀ a ∈ m, ∀ b ∈ m, le a b → le b a → a = b := fun a ha b hb =>
    hanti a ((hlm a).2 ha) b ((hlm b).2 hb)
  have hperm : l.dedup.Perm m.dedup := by
    rw [List.perm_ext_iff_of_nodup (List.nodup_dedup l) (List.nodup_dedup m)]
    intro a
    rw [List.mem_dedup, List.mem_dedup, hlm]
  have heq : l.dedup = m.dedup := by
    refine List.Perm.eq_of_pairwise (fun a b ha hb => ?_) (hl.sublist (List.dedup_sublist l))
      (hm.sublist (List.dedup_sublist m)) hperm
    exact hanti a (List.mem_dedup.1 ha) b ((hlm b).2 (List.mem_dedup.1 hb))
  rw [foldl_eq_foldl_dedup hl hanti h hb, heq,
    foldl_eq_foldl_dedup hm hanti' (h.mono fun a ha => (hlm a).2 ha) hb]

end Fold

end ResourceStubs
