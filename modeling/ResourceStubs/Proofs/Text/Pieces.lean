import ResourceStubs.Text.Search

/-!
# Cutting at a separator and joining again

`pieces` cuts a text at every separator.  No piece has a separator in it
(`notMem_of_mem_pieces`), and texts without a separator come back as they were when
they are joined by separators and cut again (`pieces_intercalate`).
-/

namespace ResourceStubs
namespace Text

variable {separator : Char}

theorem pieces_of_notMem {cs : List Char} (h : separator ∉ cs) : pieces separator cs = [cs] := by
  induction cs with
  | nil => rfl
  | cons c cs ih =>
      rw [List.mem_cons, not_or] at h
      rw [pieces, if_neg (Ne.symm h.1), ih h.2]

/-- Two texts with a separator between them are cut into the pieces of both. -/
theorem pieces_append (cs ds : List Char) :
    pieces separator (cs ++ separator :: ds) = pieces separator cs ++ pieces separator ds := by
  induction cs with
  | nil =>
      have hnil : pieces separator [] = [[]] := rfl
      rw [List.nil_append, hnil, pieces, if_pos rfl, List.singleton_append]
  | cons c cs ih =>
      rw [List.cons_append, pieces, ih, pieces]
      split
      · rfl
      · cases hp : pieces separator cs with
        | nil => exact absurd hp (pieces_ne_nil _ _)
        | cons piece rest => rfl

theorem pieces_append_cons {cs : List Char} (h : separator ∉ cs) (ds : List Char) :
    pieces separator (cs ++ separator :: ds) = cs :: pieces separator ds := by
  rw [pieces_append, pieces_of_notMem h, List.singleton_append]

/-- A text that begins with something else begins its first piece with it. -/
theorem pieces_cons_of_ne {c : Char} (h : c ≠ separator) (cs : List Char) :
    ∃ piece rest, pieces separator (c :: cs) = (c :: piece) :: rest := by
  rw [pieces, if_neg h]
  cases hp : pieces separator cs with
  | nil => exact absurd hp (pieces_ne_nil _ _)
  | cons piece rest => exact ⟨piece, rest, rfl⟩

/-- No piece has a separator in it. -/
theorem notMem_of_mem_pieces {cs piece : List Char} (h : piece ∈ pieces separator cs) :
    separator ∉ piece := by
  induction cs generalizing piece with
  | nil =>
      rw [pieces, List.mem_singleton] at h
      rw [h]
      exact List.not_mem_nil
  | cons c cs ih =>
      rw [pieces] at h
      split at h
      · rcases List.mem_cons.1 h with rfl | h
        · exact List.not_mem_nil
        · exact ih h
      · rename_i hc
        split at h
        · rename_i first rest heq
          rw [heq] at ih
          rcases List.mem_cons.1 h with rfl | h
          · rw [List.mem_cons, not_or]
            exact ⟨Ne.symm hc, ih List.mem_cons_self⟩
          · exact ih (List.mem_cons_of_mem _ h)
        · rename_i heq
          exact absurd heq (pieces_ne_nil _ _)

/-- The pieces with a separator before each are the text with a separator before it. -/
theorem flatMap_cons_pieces (cs : List Char) :
    (pieces separator cs).flatMap (fun piece => separator :: piece) = separator :: cs := by
  induction cs with
  | nil => rfl
  | cons c cs ih =>
      rw [pieces]
      split
      · rename_i hc
        rw [List.flatMap_cons, ih, hc]
        rfl
      · cases hp : pieces separator cs with
        | nil => exact absurd hp (pieces_ne_nil _ _)
        | cons piece rest =>
            rw [hp, List.flatMap_cons, List.cons_append, List.cons.injEq] at ih
            dsimp only
            rw [List.flatMap_cons, List.cons_append, List.cons_append, ih.2]

/-- The pieces with separators between them are the text. -/
theorem intercalate_pieces (separator : Char) (cs : List Char) :
    [separator].intercalate (pieces separator cs) = cs := by
  induction cs with
  | nil => rfl
  | cons c cs ih =>
      rw [pieces]
      split
      · rename_i hc
        rw [List.intercalate_cons_of_ne_nil (pieces_ne_nil _ _), ih, hc]
        rfl
      · cases hp : pieces separator cs with
        | nil => exact absurd hp (pieces_ne_nil _ _)
        | cons piece rest =>
            rw [hp] at ih
            cases rest with
            | nil => rw [← ih, List.intercalate_singleton, List.intercalate_singleton]
            | cons next rest =>
                rw [← ih, List.intercalate_cons_cons, List.intercalate_cons_cons]
                rfl

/-- But for the separator, a character of the text is one of a piece. -/
theorem mem_iff_exists_mem_pieces {c : Char} (h : c ≠ separator) (cs : List Char) :
    c ∈ cs ↔ ∃ piece ∈ pieces separator cs, c ∈ piece := by
  have hmem : c ∈ cs ↔ c ∈ separator :: cs := by
    rw [List.mem_cons, or_iff_right h]
  rw [hmem, ← flatMap_cons_pieces, List.mem_flatMap]
  refine exists_congr fun piece => and_congr_right fun _ => ?_
  rw [List.mem_cons, or_iff_right h]

/-- **Texts without a separator come back.** -/
theorem pieces_intercalate {texts : List (List Char)} (hne : texts ≠ [])
    (h : ∀ cs ∈ texts, separator ∉ cs) :
    pieces separator ([separator].intercalate texts) = texts := by
  induction texts with
  | nil => exact absurd rfl hne
  | cons cs texts ih =>
      have hcs := h cs List.mem_cons_self
      by_cases ht : texts = []
      · rw [ht, List.intercalate_singleton, pieces_of_notMem hcs]
      · rw [List.intercalate_cons_of_ne_nil ht, List.append_assoc, List.singleton_append,
          pieces_append_cons hcs, ih ht fun ds hds => h ds (List.mem_cons_of_mem _ hds)]

end Text
end ResourceStubs
