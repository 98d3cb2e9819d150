import Mathlib.Data.List.Forall2
import ResourceStubs.Proofs.Text.Cut
import ResourceStubs.Proofs.Text.Pieces

/-!
# Texts with a separator between them

What stands in one of the texts stands in the whole (`infix_intercalate_of_mem`).  The other
way round, a pattern of the whole may reach over a separator, and only one that lacks it has
to stand in a single text (`exists_infix_of_infix_intercalate`).  So a text has such a pattern
if and only if one of its pieces has (`infix_iff_exists_mem_pieces`), and it has the pattern
with a separator in front if and only if a piece behind the first begins with it
(`cons_infix_iff_exists_mem_pieces`).  With a separator on both sides it has to be a whole
piece, and neither the first nor the last (`enclosed_infix_iff_mem_pieces`).

Texts that lose characters make a whole that loses them (`sublist_intercalate`); if the whole
loses none, neither does any of the texts (`eq_of_intercalate_eq`).
-/

namespace ResourceStubs
namespace Text

/-! ## Patterns -/

theorem infix_intercalate_of_mem {separator piece : List Char} {pieces : List (List Char)}
    (h : piece ∈ pieces) : piece <:+: separator.intercalate pieces := by
  induction pieces with
  | nil => exact absurd h List.not_mem_nil
  | cons first pieces ih =>
      cases pieces with
      | nil =>
          rw [List.mem_singleton] at h
          rw [h, List.intercalate_singleton]
      | cons next pieces =>
          rw [List.intercalate_cons_cons]
          rcases List.mem_cons.1 h with rfl | h
          · exact ((List.prefix_append _ _).trans (List.prefix_append _ _)).isInfix
          · exact (ih h).trans (List.suffix_append _ _).isInfix

/-- A pattern without the separator stands in one of the pieces. -/
theorem exists_infix_of_infix_intercalate {c : Char} {pattern : List Char} (hc : c ∉ pattern)
    {pieces : List (List Char)} (hne : pieces ≠ []) (h : pattern <:+: [c].intercalate pieces) :
    ∃ piece ∈ pieces, pattern <:+: piece := by
  induction pieces with
  | nil => exact absurd rfl hne
  | cons first pieces ih =>
      cases pieces with
      | nil =>
          rw [List.intercalate_singleton] at h
          exact ⟨first, List.mem_cons_self, h⟩
      | cons next pieces =>
          rw [List.intercalate_cons_cons, List.append_assoc, List.singleton_append] at h
          rcases infix_of_infix_cons hc h with h | h
          · exact ⟨first, List.mem_cons_self, h⟩
          · obtain ⟨piece, hpiece, hpattern⟩ := ih (List.cons_ne_nil _ _) h
            exact ⟨piece, List.mem_cons_of_mem _ hpiece, hpattern⟩

section Pieces

variable {separator : Char} {pattern : List Char} (hpattern : separator ∉ pattern)
include hpattern

theorem infix_iff_exists_mem_pieces (text : List Char) :
    pattern <:+: text ↔ ∃ piece ∈ pieces separator text, pattern <:+: piece := by
  constructor
  · intro h
    rw [← intercalate_pieces separator text] at h
    exact exists_infix_of_infix_intercalate hpattern (pieces_ne_nil _ _) h
  · rintro ⟨piece, hpiece, h⟩
    have hjoined : piece <:+: [separator].intercalate (pieces separator text) :=
      infix_intercalate_of_mem hpiece
    rw [intercalate_pieces] at hjoined
    exact h.trans hjoined

/-- A text begins with what its first piece begins with. -/
theorem prefix_iff_of_pieces {text first : List Char} {rest : List (List Char)}
    (h : pieces separator text = first :: rest) : pattern <+: text ↔ pattern <+: first := by
  have hjoined := intercalate_pieces separator text
  rw [h] at hjoined
  cases rest with
  | nil => rw [← hjoined, List.intercalate_singleton]
  | cons next rest =>
      rw [List.intercalate_cons_cons, List.append_assoc, List.singleton_append] at hjoined
      rw [← hjoined]
      constructor
      · intro hbegins
        refine List.prefix_of_prefix_length_le hbegins (List.prefix_append _ _) ?_
        -- a longer pattern would reach over the separator
        by_contra hlength
        have hover : first ++ [separator] <+: pattern := by
          refine List.prefix_of_prefix_length_le ?_ hbegins ?_
          · exact (List.prefix_append_right_inj _).2 (List.prefix_append [separator] _)
          · rw [List.length_append, List.length_singleton]
            omega
        exact hpattern (hover.subset (by simp))
      · exact fun hbegins => hbegins.trans (List.prefix_append _ _)

/-- **A pattern with a separator in front of it is the beginning of a piece** behind the
first. -/
theorem cons_infix_iff_exists_mem_pieces (text : List Char) :
    separator :: pattern <:+: text ↔ ∃ piece ∈ (pieces separator text).tail, pattern <+: piece := by
  induction text with
  | nil => simp [pieces]
  | cons c text ih =>
      obtain ⟨first, rest, hp⟩ := List.exists_cons_of_ne_nil (pieces_ne_nil separator text)
      rw [List.infix_cons_iff, ih, List.cons_prefix_cons, prefix_iff_of_pieces hpattern hp,
        pieces, hp]
      split
      · rename_i hc
        simp [hc]
      · rename_i hc
        simp [Ne.symm hc]

end Pieces

/-- **A text between two separators is a piece** that is neither the first nor the last. -/
theorem enclosed_infix_iff_mem_pieces {separator : Char} {piece : List Char}
    (hpiece : separator ∉ piece) (text : List Char) :
    separator :: (piece ++ [separator]) <:+: text ↔
      piece ∈ (pieces separator text).tail.dropLast := by
  constructor
  · rintro ⟨before, after, rfl⟩
    have htext : before ++ separator :: (piece ++ [separator]) ++ after =
        before ++ separator :: (piece ++ separator :: after) := by simp
    rw [htext, pieces_append, pieces_append_cons hpiece,
      List.tail_append_of_ne_nil (pieces_ne_nil _ _),
      List.dropLast_append_of_ne_nil (List.cons_ne_nil _ _),
      List.dropLast_cons_of_ne_nil (pieces_ne_nil _ _)]
    exact List.mem_append_right _ List.mem_cons_self
  · intro h
    obtain ⟨first, rest, hpieces⟩ := List.exists_cons_of_ne_nil (pieces_ne_nil separator text)
    rw [hpieces, List.tail_cons] at h
    rcases List.eq_nil_or_concat rest with rfl | ⟨middle, last, rfl⟩
    · exact absurd h List.not_mem_nil
    rw [List.concat_eq_append, List.dropLast_concat] at h
    obtain ⟨front, back, rfl⟩ := List.append_of_mem h
    -- behind the piece there is another one, and a separator in front of that
    obtain ⟨behind, hbehind⟩ : ∃ behind, (back ++ [last]).flatMap
        (fun piece => separator :: piece) = separator :: behind := by
      cases back <;> exact ⟨_, rfl⟩
    have hjoined : (pieces separator text).flatMap (fun piece => separator :: piece) =
        separator :: text := flatMap_cons_pieces text
    rw [hpieces, List.concat_eq_append, List.append_assoc, List.cons_append, List.flatMap_cons,
      List.flatMap_append, List.flatMap_cons, hbehind,
      List.cons_append, List.cons.injEq] at hjoined
    refine ⟨first ++ front.flatMap fun piece => separator :: piece, behind, ?_⟩
    rw [← hjoined.2]
    simp

/-! ## Texts that lose characters -/

theorem append_eq_of_sublist {p q x y : List Char} (hp : p.Sublist q) (hx : x.Sublist y)
    (h : p ++ x = q ++ y) : p = q ∧ x = y := by
  have hlength := congrArg List.length h
  rw [List.length_append, List.length_append] at hlength
  have hple := hp.length_le
  have hxle := hx.length_le
  exact ⟨hp.eq_of_length (by omega), hx.eq_of_length (by omega)⟩

theorem sublist_intercalate (separator : List Char) {ps qs : List (List Char)}
    (h : List.Forall₂ List.Sublist ps qs) :
    (separator.intercalate ps).Sublist (separator.intercalate qs) := by
  induction h with
  | nil => exact List.Sublist.refl _
  | cons hp hps ih =>
      cases hps with
      | nil => simpa using hp
      | cons hr hrs =>
          rw [List.intercalate_cons_cons, List.intercalate_cons_cons]
          exact (hp.append (List.Sublist.refl _)).append ih

/-- If the parts become no longer and the whole stays, the parts stay. -/
theorem eq_of_intercalate_eq {separator : List Char} {ps qs : List (List Char)}
    (h : List.Forall₂ List.Sublist ps qs)
    (heq : separator.intercalate ps = separator.intercalate qs) : ps = qs := by
  induction h with
  | nil => rfl
  | cons hp hps ih =>
      cases hps with
      | nil =>
          rw [List.intercalate_singleton, List.intercalate_singleton] at heq
          rw [heq]
      | cons hr hrs =>
          rw [List.intercalate_cons_cons, List.intercalate_cons_cons] at heq
          obtain ⟨hfirst, hrest⟩ := append_eq_of_sublist (hp.append (List.Sublist.refl _))
            (sublist_intercalate separator (.cons hr hrs)) heq
          rw [ih hrest, List.append_cancel_right hfirst]

end Text
end ResourceStubs
