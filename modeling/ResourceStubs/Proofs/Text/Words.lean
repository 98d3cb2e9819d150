import ResourceStubs.Proofs.Text.Cut
import ResourceStubs.Text.Blank

/-!
# The words of a text

`Spaced words text` says where the words of a text are without reading it: blanks may stand
around them, and at least one stands behind each word but the last.  A text has exactly one
such list of words, and `words` finds it (`words_eq_iff`).

A pattern without blanks that stands in the text stands in one of its words
(`Spaced.infix_iff`).
-/

namespace ResourceStubs
namespace Text

/-- A text that can be a word: there is something in it, and no blank. -/
structure IsWord (word : List Char) : Prop where
  ne_nil : word ≠ []
  notBlank : ∀ c ∈ word, isBlank c = false

theorem notBlank_of_any {cs : List Char} (h : cs.any isBlank = false) :
    ∀ c ∈ cs, isBlank c = false := by
  intro c hc
  rw [← Bool.not_eq_true]
  exact List.any_eq_false.1 h c hc

/-- Whether a given text is a word can be computed. -/
theorem IsWord.of_any {word : List Char} (hne : word ≠ []) (h : word.any isBlank = false) :
    IsWord word :=
  ⟨hne, notBlank_of_any h⟩

/-- The text has these words and nothing else but blanks, of which there is at least one
between two words. -/
inductive Spaced : List (List Char) → List Char → Prop
  | blanks {gap : List Char} (h : isBlankText gap = true) : Spaced [] gap
  | word {gap word rest : List Char} {words : List (List Char)} (hgap : isBlankText gap = true)
      (hword : IsWord word) (hrest : Spaced words rest)
      (hend : ∀ c ∈ rest.head?, isBlank c = true) : Spaced (word :: words) (gap ++ word ++ rest)

variable {gap word rest text : List Char} {ws : List (List Char)}

theorem isBlankText_append {cs ds : List Char} :
    isBlankText (cs ++ ds) = true ↔ isBlankText cs = true ∧ isBlankText ds = true := by
  rw [isBlankText, List.all_append, Bool.and_eq_true]
  rfl

theorem isBlankText_singleton {c : Char} (h : isBlank c = true) : isBlankText [c] = true := by
  rw [isBlankText, List.all_cons, h]
  rfl

/-- More blanks in front make no difference. -/
theorem Spaced.append_left (h : Spaced ws text) (hgap : isBlankText gap = true) :
    Spaced ws (gap ++ text) := by
  cases h with
  | blanks h => exact .blanks (isBlankText_append.2 ⟨hgap, h⟩)
  | word hgap' hword hrest hend =>
      rw [← List.append_assoc, ← List.append_assoc]
      exact .word (isBlankText_append.2 ⟨hgap, hgap'⟩) hword hrest hend

/-- A word with a blank behind it, in front of others. -/
theorem Spaced.cons (h : Spaced ws text) (hword : IsWord word) {c : Char}
    (hc : isBlank c = true) : Spaced (word :: ws) (word ++ c :: text) := by
  have hspaced : Spaced (word :: ws) ([] ++ word ++ ([c] ++ text)) :=
    .word rfl hword (h.append_left (isBlankText_singleton hc)) (by simpa using hc)
  rwa [List.nil_append] at hspaced

/-- A word alone. -/
theorem IsWord.spaced (hword : IsWord word) : Spaced [word] word := by
  have h : Spaced [word] ([] ++ word ++ []) := .word rfl hword (.blanks rfl) (by simp)
  rwa [List.nil_append, List.append_nil] at h

/-! ## Finding the words -/

/-- What has been found is spaced as it is in the text. -/
theorem spaced_go_words {front : List Char} (hfront : ∀ c ∈ front, isBlank c = false)
    (text : List Char) : Spaced (words.go front text) (front.reverse ++ text) := by
  induction text generalizing front with
  | nil =>
      cases front with
      | nil => exact .blanks rfl
      | cons c front =>
          rw [List.append_nil]
          exact IsWord.spaced ⟨by simp, fun d hd => hfront d (List.mem_reverse.1 hd)⟩
  | cons c text ih =>
      rw [words.go]
      cases hc : isBlank c with
      | false =>
          have hmore := ih (List.forall_mem_cons.2 ⟨hc, hfront⟩)
          rwa [List.reverse_cons, List.append_assoc] at hmore
      | true =>
          have hrest : Spaced (words.go [] text) text := ih (by simp)
          cases front with
          | nil => exact hrest.append_left (isBlankText_singleton hc)
          | cons d front =>
              exact hrest.cons ⟨by simp, fun e he => hfront e (List.mem_reverse.1 he)⟩ hc

theorem words_append_of_isBlankText (hgap : isBlankText gap = true) (text : List Char) :
    words (gap ++ text) = words text := by
  induction gap with
  | nil => rfl
  | cons c gap ih =>
      rw [isBlankText, List.all_cons, Bool.and_eq_true] at hgap
      rw [List.cons_append, words, words.go, if_pos hgap.1]
      exact ih hgap.2

theorem go_words_append (hword : ∀ c ∈ word, isBlank c = false) (front text : List Char) :
    words.go front (word ++ text) = words.go (word.reverse ++ front) text := by
  induction word generalizing front with
  | nil => rfl
  | cons c word ih =>
      obtain ⟨hc, hword⟩ := List.forall_mem_cons.1 hword
      rw [List.cons_append, words.go, hc, if_neg (by simp), ih hword, List.reverse_cons,
        List.append_assoc, List.singleton_append]

/-- A word ends where a blank stands, or the text ends. -/
theorem go_words_of_head? {front : List Char} (hfront : front ≠ [])
    (hend : ∀ c ∈ text.head?, isBlank c = true) :
    words.go front text = front.reverse :: words text := by
  have hempty : ¬front.isEmpty = true := mt List.isEmpty_iff.1 hfront
  cases text with
  | nil => rw [words.go, if_neg hempty]; rfl
  | cons c text =>
      have hc : isBlank c = true := hend c rfl
      rw [words.go, if_pos hc, if_neg hempty, words, words.go, if_pos hc]
      rfl

theorem Spaced.words_eq (h : Spaced ws text) : words text = ws := by
  induction h with
  | @blanks gap h =>
      rw [← List.append_nil gap, words_append_of_isBlankText h]
      rfl
  | word hgap hword hrest hend ih =>
      rw [List.append_assoc, words_append_of_isBlankText hgap, words,
        go_words_append hword.notBlank, List.append_nil,
        go_words_of_head? (mt List.reverse_eq_nil_iff.1 hword.ne_nil) hend, List.reverse_reverse, ih]

/-- **A text has one list of words.** -/
theorem words_eq_iff : words text = ws ↔ Spaced ws text :=
  ⟨fun h => h ▸ spaced_go_words (by simp) text, Spaced.words_eq⟩

/-- A text without words has nothing but blanks in it. -/
theorem words_eq_nil_iff (cs : List Char) : words cs = [] ↔ isBlankText cs = true := by
  rw [words_eq_iff]
  exact ⟨fun h => by cases h; assumption, .blanks⟩

/-! ## Patterns -/

/-- A pattern that does not begin with a blank does not begin in a gap. -/
theorem infix_gap_append_iff {p : Char} {ps : List Char} (hp : isBlank p = false)
    (hgap : isBlankText gap = true) : p :: ps <:+: gap ++ text ↔ p :: ps <:+: text := by
  refine append_infix_iff_of_notMem fun hmem => ?_
  rw [List.all_eq_true.1 hgap p hmem] at hp
  exact absurd hp (by simp)

/-- **A pattern without blanks stands in a text if and only if it stands in a word.** -/
theorem Spaced.infix_iff {p : Char} {ps : List Char} (h : Spaced ws text)
    (hpattern : ∀ c ∈ p :: ps, isBlank c = false) :
    p :: ps <:+: text ↔ ∃ word ∈ ws, p :: ps <:+: word := by
  have hp : isBlank p = false := hpattern p List.mem_cons_self
  induction h with
  | @blanks gap h =>
      have hnil : ¬p :: ps <:+: [] := by simp
      rw [← List.append_nil gap, infix_gap_append_iff hp h, iff_false_left hnil]
      simp
  | @word gap word rest ws hgap hword hrest hend ih =>
      rw [List.append_assoc, infix_gap_append_iff hp hgap, List.exists_mem_cons_iff]
      refine Iff.trans ?_ (or_congr_right ih)
      constructor
      · intro hfound
        cases rest with
        | nil => exact Or.inl (by rwa [List.append_nil] at hfound)
        | cons c rest =>
            have hc : c ∉ p :: ps := fun hmem =>
              absurd (hend c rfl) (by simp [hpattern c hmem])
            exact (infix_of_infix_cons hc hfound).imp_right List.infix_cons
      · rintro (hfound | hfound)
        · exact hfound.trans (List.prefix_append _ _).isInfix
        · exact hfound.trans (List.suffix_append _ _).isInfix

end Text
end ResourceStubs
