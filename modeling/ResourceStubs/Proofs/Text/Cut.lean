import Mathlib.Data.List.Infix
import ResourceStubs.Text.Blank
import ResourceStubs.Text.Search

/-!
# Cutting off blanks, and cutting at a pattern

* `trim_eq_self_iff`: a text is trimmed if it neither begins nor ends with a blank, and a
  trim leaves such a text (`ends_trim`).
* `cutFirst?_pattern_eq_some_iff`, `cutLast?_pattern_eq_some_iff`: a cut at a pattern is made
  where the pattern stands first or last, and `cutFirst?_pattern_eq_none_iff`,
  `cutLast?_pattern_eq_none_iff`: it is made if the pattern stands in the text at all.  The
  same names without `_pattern` say so of a single character.
* `beforeFirst_eq_self_iff`: all of a text stands before a pattern that is not in it,
  `beforeFirst_eq_beforeFirst_iff`: two patterns cut a text alike only if neither is in it, and
  `replaceAll_nil_of_once`: a pattern that is in a text once is removed there.
-/

namespace ResourceStubs
namespace Text

/-! ## Blanks at the ends -/

theorem head?_dropWhile (p : Char → Bool) (cs : List Char) :
    ∀ c ∈ (cs.dropWhile p).head?, p c = false := by
  intro c hc
  have h := List.head?_dropWhile_not p cs
  rw [Option.mem_def.1 hc] at h
  exact h

theorem getLast?_dropEndWhile (p : Char → Bool) (cs : List Char) :
    ∀ c ∈ (dropEndWhile p cs).getLast?, p c = false := by
  intro c hc
  rw [dropEndWhile, List.getLast?_reverse] at hc
  exact head?_dropWhile p cs.reverse c hc

theorem dropEndWhile_prefix (p : Char → Bool) (cs : List Char) : dropEndWhile p cs <+: cs := by
  rw [dropEndWhile, ← List.reverse_suffix, List.reverse_reverse]
  exact List.dropWhile_suffix p

theorem dropWhile_of_head? {p : Char → Bool} {cs : List Char}
    (h : ∀ c ∈ cs.head?, p c = false) : cs.dropWhile p = cs := by
  cases cs with
  | nil => rfl
  | cons c cs => rw [List.dropWhile_cons, if_neg (by simpa using h c rfl)]

theorem dropEndWhile_of_getLast? {p : Char → Bool} {cs : List Char}
    (h : ∀ c ∈ cs.getLast?, p c = false) : dropEndWhile p cs = cs := by
  rw [dropEndWhile, dropWhile_of_head? (by rwa [List.head?_reverse]), List.reverse_reverse]

/-- A trim leaves no blank at either end. -/
theorem ends_trim (cs : List Char) :
    (∀ c ∈ (trim cs).head?, isBlank c = false) ∧ ∀ c ∈ (trim cs).getLast?, isBlank c = false := by
  refine ⟨fun c hc => head?_dropWhile isBlank cs c ?_, getLast?_dropEndWhile isBlank _⟩
  -- a trim that is not empty begins as the text does behind its first blanks
  obtain ⟨rest, hrest⟩ := dropEndWhile_prefix isBlank (cs.dropWhile isBlank)
  rw [← hrest, List.head?_append]
  rw [trim] at hc
  rw [Option.mem_def.1 hc]
  rfl

/-- **A trimmed text is one that neither begins nor ends with a blank.** -/
theorem trim_eq_self_iff {cs : List Char} :
    trim cs = cs ↔
      (∀ c ∈ cs.head?, isBlank c = false) ∧ ∀ c ∈ cs.getLast?, isBlank c = false := by
  constructor
  · intro h
    have hends := ends_trim cs
    rwa [h] at hends
  · rintro ⟨hhead, hlast⟩
    rw [trim, dropWhile_of_head? hhead, dropEndWhile_of_getLast? hlast]

/-- A text without blanks is trimmed. -/
theorem trim_of_forall {cs : List Char} (h : ∀ c ∈ cs, isBlank c = false) : trim cs = cs :=
  trim_eq_self_iff.2
    ⟨fun c hc => h c (List.mem_of_mem_head? hc), fun c hc => h c (List.mem_of_mem_getLast? hc)⟩

/-- Two trimmed texts make a trimmed one, if there is something of each. -/
theorem trim_append {cs ds : List Char} (hcs : trim cs = cs) (hds : trim ds = ds)
    (hcsne : cs ≠ []) (hdsne : ds ≠ []) : trim (cs ++ ds) = cs ++ ds := by
  rw [trim_eq_self_iff] at hcs hds ⊢
  rw [List.head?_append_of_ne_nil _ hcsne, List.getLast?_append_of_ne_nil _ hdsne]
  exact ⟨hcs.1, hds.2⟩

theorem withoutBlanks_append (cs ds : List Char) :
    withoutBlanks (cs ++ ds) = withoutBlanks cs ++ withoutBlanks ds :=
  List.filter_append cs ds

theorem isBlank_of_mem_withoutBlanks {cs : List Char} {c : Char} (h : c ∈ withoutBlanks cs) :
    isBlank c = false := by
  simpa using (List.mem_filter.1 h).2

/-- Only blanks are lost when blanks are dropped. -/
theorem withoutBlanks_of_forall {cs : List Char} (h : ∀ c ∈ cs, isBlank c = false) :
    withoutBlanks cs = cs := by
  rw [withoutBlanks, List.filter_eq_self]
  intro c hc
  rw [h c hc]
  rfl

/-- What a trim cuts off is blank. -/
theorem exists_trim (cs : List Char) :
    ∃ before after, cs = before ++ trim cs ++ after ∧ (∀ c ∈ before, isBlank c = true) ∧
      ∀ c ∈ after, isBlank c = true := by
  refine ⟨cs.takeWhile isBlank, ((cs.dropWhile isBlank).reverse.takeWhile isBlank).reverse, ?_,
    fun c hc => List.all_eq_true.1 List.all_takeWhile c hc, fun c hc =>
      List.all_eq_true.1 List.all_takeWhile c (List.mem_reverse.1 hc)⟩
  rw [trim, dropEndWhile, List.append_assoc, ← List.reverse_append, List.takeWhile_append_dropWhile,
    List.reverse_reverse, List.takeWhile_append_dropWhile]

theorem mem_of_mem_trim {c : Char} {cs : List Char} (h : c ∈ trim cs) : c ∈ cs := by
  obtain ⟨before, after, hcs, -, -⟩ := exists_trim cs
  rw [hcs]
  exact List.mem_append_left _ (List.mem_append_right _ h)

theorem withoutBlanks_of_forall_isBlank {cs : List Char} (h : ∀ c ∈ cs, isBlank c = true) :
    withoutBlanks cs = [] := by
  rw [withoutBlanks, List.filter_eq_nil_iff]
  intro c hc
  simp [h c hc]

theorem withoutBlanks_trim (cs : List Char) : withoutBlanks (trim cs) = withoutBlanks cs := by
  obtain ⟨before, after, hcs, hbefore, hafter⟩ := exists_trim cs
  have h := congrArg withoutBlanks hcs
  rw [withoutBlanks_append, withoutBlanks_append, withoutBlanks_of_forall_isBlank hbefore,
    withoutBlanks_of_forall_isBlank hafter, List.nil_append, List.append_nil] at h
  exact h.symm

/-! ## Cutting at a pattern -/

section Pattern

variable {pattern text before after : List Char}

theorem isSome_afterStart?_iff : (afterStart? pattern text).isSome ↔ pattern <+: text := by
  rw [Option.isSome_iff_exists]
  exact exists_congr fun rest => afterStart?_eq_some_iff.trans eq_comm

/-- A text is cut at a pattern if the pattern stands in it. -/
theorem cutFirst?_pattern_eq_none_iff : cutFirst? pattern text = none ↔ ¬pattern <:+: text := by
  induction text with
  | nil => simp [cutFirst?]
  | cons c text ih =>
      rw [List.infix_cons_iff, ← isSome_afterStart?_iff, cutFirst?]
      cases afterStart? pattern (c :: text) with
      | some rest => simp
      | none => simpa using ih

theorem exists_cutFirst?_of_occurs (h : pattern <:+: text) :
    ∃ before after, cutFirst? pattern text = some (before, after) := by
  obtain ⟨⟨before, after⟩, hcut⟩ := Option.ne_none_iff_exists'.1
    (mt cutFirst?_pattern_eq_none_iff.1 (not_not.2 h))
  exact ⟨before, after, hcut⟩

theorem occursIn_iff : occursIn pattern text = true ↔ pattern <:+: text := by
  rw [occursIn, ← not_iff_not, Bool.not_eq_true, Option.isSome_eq_false_iff,
    Option.isNone_iff_eq_none, cutFirst?_pattern_eq_none_iff]

theorem append_dropLast_prefix :
    before ++ pattern.dropLast <+: before ++ pattern ++ after := by
  rw [List.append_assoc]
  exact (List.prefix_append_right_inj _).2
    ((List.dropLast_prefix pattern).trans (List.prefix_append _ _))

/-- Of two places of a pattern, the first is over before the last character of the other. -/
theorem prefix_append_dropLast {c : Char} (h : pattern <+: c :: (before ++ pattern ++ after)) :
    pattern <+: c :: (before ++ pattern.dropLast) := by
  refine List.prefix_of_prefix_length_le h
    (List.cons_prefix_cons.2 ⟨rfl, append_dropLast_prefix⟩) ?_
  rw [List.length_cons, List.length_append, List.length_dropLast]
  omega

/-- **The first cut is made where the pattern stands first.**  Nothing of the pattern then
begins in front of the cut. -/
theorem cutFirst?_pattern_eq_some_iff (hp : pattern ≠ []) :
    cutFirst? pattern text = some (before, after) ↔
      text = before ++ pattern ++ after ∧ ¬pattern <:+: before ++ pattern.dropLast := by
  induction text generalizing before with
  | nil => simp [cutFirst?, hp]
  | cons c text ih =>
      have hshort : ¬pattern <:+: pattern.dropLast := by
        intro h
        have hlength := h.length_le
        rw [List.length_dropLast] at hlength
        have hpos := List.length_pos_iff.2 hp
        omega
      by_cases hstart : pattern <+: c :: text
      · obtain ⟨rest, hrest⟩ := hstart
        rw [cutFirst?, afterStart?_eq_some_iff.2 hrest.symm, Option.some.injEq, Prod.mk.injEq]
        constructor
        · rintro ⟨rfl, rfl⟩
          exact ⟨hrest.symm, hshort⟩
        · rintro ⟨htext, hnot⟩
          cases before with
          | nil =>
              rw [← hrest] at htext
              exact ⟨rfl, List.append_cancel_left htext⟩
          | cons b before =>
              have hbegins : pattern <+: b :: (before ++ pattern ++ after) :=
                ⟨rest, hrest.trans htext⟩
              exact absurd (prefix_append_dropLast hbegins).isInfix hnot
      · have hnone : afterStart? pattern (c :: text) = none := by
          rwa [← Option.not_isSome_iff_eq_none, isSome_afterStart?_iff]
        rw [cutFirst?, hnone, Option.map_eq_some_iff]
        constructor
        · rintro ⟨⟨b, a⟩, hcut, heq⟩
          obtain ⟨rfl, rfl⟩ := Prod.mk.inj heq
          obtain ⟨rfl, hnot⟩ := ih.1 hcut
          refine ⟨rfl, fun hoccurs => ?_⟩
          rcases List.infix_cons_iff.1 hoccurs with hbegins | hoccurs
          · exact hstart (hbegins.trans (List.cons_prefix_cons.2 ⟨rfl, append_dropLast_prefix⟩))
          · exact hnot hoccurs
        · rintro ⟨htext, hnot⟩
          cases before with
          | nil => exact absurd ⟨after, htext.symm⟩ hstart
          | cons b before =>
              obtain ⟨rfl, rfl⟩ := List.cons.inj htext
              have hrest : ¬pattern <:+: before ++ pattern.dropLast :=
                fun hoccurs => hnot (List.infix_cons hoccurs)
              exact ⟨(before, after), ih.2 ⟨rfl, hrest⟩, rfl⟩

theorem cutLast?_pattern_eq_none_iff : cutLast? pattern text = none ↔ ¬pattern <:+: text := by
  rw [cutLast?, Option.map_eq_none_iff, cutFirst?_pattern_eq_none_iff, List.reverse_infix]

/-- **The last cut is made where the pattern stands last.** -/
theorem cutLast?_pattern_eq_some_iff (hp : pattern ≠ []) :
    cutLast? pattern text = some (before, after) ↔
      text = before ++ pattern ++ after ∧ ¬pattern <:+: pattern.tail ++ after := by
  have hreverse : pattern.reverse ≠ [] := mt List.reverse_eq_nil_iff.1 hp
  have hcut : cutLast? pattern text = some (before, after) ↔
      cutFirst? pattern.reverse text.reverse = some (after.reverse, before.reverse) := by
    rw [cutLast?, Option.map_eq_some_iff]
    constructor
    · rintro ⟨⟨a, b⟩, hcut, heq⟩
      obtain ⟨rfl, rfl⟩ := Prod.mk.inj heq
      rw [hcut, List.reverse_reverse, List.reverse_reverse]
    · exact fun hcut => ⟨(after.reverse, before.reverse), hcut, by simp⟩
  rw [hcut, cutFirst?_pattern_eq_some_iff hreverse, List.dropLast_reverse, ← List.reverse_append,
    ← List.reverse_append, ← List.reverse_append, List.reverse_infix, List.reverse_inj,
    List.append_assoc]

/-- A pattern does not reach into a text that lacks its last character. -/
theorem infix_append_iff_of_notMem {c : Char} {more : List Char} (hmore : c ∉ more) :
    pattern ++ [c] <:+: text ++ more ↔ pattern ++ [c] <:+: text := by
  induction more using List.reverseRecOn with
  | nil => rw [List.append_nil]
  | append_singleton more d ih =>
      rw [List.mem_append, not_or] at hmore
      rw [← List.append_assoc, List.infix_concat_iff, ih hmore.1]
      refine or_iff_right fun hsuffix => hmore.2 ?_
      have hlast : c = d := by
        obtain ⟨front, hfront⟩ := hsuffix
        rw [← List.append_assoc] at hfront
        exact List.singleton_inj.1 (List.append_inj' hfront rfl).2
      exact List.mem_singleton.2 hlast

/-- A pattern does not begin in a text that lacks its first character. -/
theorem append_infix_iff_of_notMem {c : Char} {more : List Char} (hmore : c ∉ more) :
    c :: pattern <:+: more ++ text ↔ c :: pattern <:+: text := by
  rw [← List.reverse_infix, List.reverse_append, List.reverse_cons,
    infix_append_iff_of_notMem (by rwa [List.mem_reverse]), ← List.reverse_cons, List.reverse_infix]

/-! ## What stands before a pattern -/

theorem beforeFirst_of_not_occurs (h : ¬pattern <:+: text) : beforeFirst pattern text = text := by
  rw [beforeFirst, cutFirst?_pattern_eq_none_iff.2 h]

theorem beforeFirst_of_cutFirst? (h : cutFirst? pattern text = some (before, after)) :
    beforeFirst pattern text = before := by
  rw [beforeFirst, h]

/-- All of the text stands before the pattern if and only if the pattern is not in it. -/
theorem beforeFirst_eq_self_iff (hp : pattern ≠ []) :
    beforeFirst pattern text = text ↔ ¬pattern <:+: text := by
  refine ⟨fun h hinfix => ?_, beforeFirst_of_not_occurs⟩
  obtain ⟨before, after, hcut⟩ := exists_cutFirst?_of_occurs hinfix
  rw [beforeFirst_of_cutFirst? hcut] at h
  have hlength := congrArg List.length (eq_of_cutFirst?_eq_some hcut)
  have hpos := List.length_pos_iff.2 hp
  rw [← h, List.length_append, List.length_append] at hlength
  omega

theorem beforeFirst_append_of_occurs {more : List Char} (hp : pattern ≠ [])
    (h : pattern <:+: text) : beforeFirst pattern (text ++ more) = beforeFirst pattern text := by
  obtain ⟨before, after, hcut⟩ := exists_cutFirst?_of_occurs h
  obtain ⟨htext, hbefore⟩ := (cutFirst?_pattern_eq_some_iff hp).1 hcut
  have hmore : cutFirst? pattern (text ++ more) = some (before, after ++ more) :=
    (cutFirst?_pattern_eq_some_iff hp).2 ⟨by rw [htext, List.append_assoc _ after], hbefore⟩
  rw [beforeFirst_of_cutFirst? hmore, beforeFirst_of_cutFirst? hcut]

/-- A pattern that is put at the end of a text changes nothing about what stands before it. -/
theorem beforeFirst_append_self {c : Char} (hc : c ∉ pattern) :
    beforeFirst (pattern ++ [c]) (text ++ (pattern ++ [c])) =
      beforeFirst (pattern ++ [c]) text := by
  have hp : pattern ++ [c] ≠ [] := List.concat_ne_nil c pattern
  by_cases h : pattern ++ [c] <:+: text
  · exact beforeFirst_append_of_occurs hp h
  · have hbefore : ¬pattern ++ [c] <:+: text ++ (pattern ++ [c]).dropLast := by
      rwa [List.dropLast_concat, infix_append_iff_of_notMem hc]
    have hcut : cutFirst? (pattern ++ [c]) (text ++ (pattern ++ [c])) = some (text, []) :=
      (cutFirst?_pattern_eq_some_iff hp).2 ⟨(List.append_nil _).symm, hbefore⟩
    rw [beforeFirst_of_cutFirst? hcut, beforeFirst_of_not_occurs h]

/-- Two patterns that do not begin alike cut a text in the same way only if neither is in it. -/
theorem beforeFirst_eq_beforeFirst_iff {other : List Char} (hp : pattern ≠ []) (ho : other ≠ [])
    (hpo : ¬pattern <+: other) (hop : ¬other <+: pattern) :
    beforeFirst pattern text = beforeFirst other text ↔
      ¬pattern <:+: text ∧ ¬other <:+: text := by
  constructor
  · intro h
    by_cases hin : pattern <:+: text
    · by_cases hio : other <:+: text
      · obtain ⟨before, after, hcut⟩ := exists_cutFirst?_of_occurs hin
        obtain ⟨before', after', hcut'⟩ := exists_cutFirst?_of_occurs hio
        -- both patterns stand at the same place
        rw [beforeFirst_of_cutFirst? hcut, beforeFirst_of_cutFirst? hcut'] at h
        have htext := (eq_of_cutFirst?_eq_some hcut).symm.trans (eq_of_cutFirst?_eq_some hcut')
        rw [h, List.append_assoc, List.append_assoc, List.append_cancel_left_eq] at htext
        rcases List.prefix_or_prefix_of_prefix (List.prefix_append pattern after)
            (htext ▸ List.prefix_append other after') with hbegins | hbegins
        · exact absurd hbegins hpo
        · exact absurd hbegins hop
      · rw [beforeFirst_of_not_occurs hio, beforeFirst_eq_self_iff hp] at h
        exact absurd hin h
    · rw [beforeFirst_of_not_occurs hin, eq_comm, beforeFirst_eq_self_iff ho] at h
      exact ⟨hin, h⟩
  · rintro ⟨hin, hio⟩
    rw [beforeFirst_of_not_occurs hin, beforeFirst_of_not_occurs hio]

/-! ## Removing a pattern -/

theorem splitOn_of_not_occurs (hp : pattern ≠ []) (h : ¬pattern <:+: text) :
    splitOn pattern text = [text] := by
  rw [splitOn, dif_neg hp]
  split
  · rfl
  · rename_i hcut
    rw [cutFirst?_pattern_eq_none_iff.2 h] at hcut
    exact absurd hcut (by simp)

theorem splitOn_of_cutFirst? (hp : pattern ≠ [])
    (h : cutFirst? pattern text = some (before, after)) :
    splitOn pattern text = before :: splitOn pattern after := by
  rw [splitOn, dif_neg hp]
  split
  · rename_i hcut
    rw [h] at hcut
    exact absurd hcut (by simp)
  · rename_i hcut
    rw [h, Option.some.injEq, Prod.mk.injEq] at hcut
    rw [hcut.1, hcut.2]

/-- A pattern that stands once is removed where it stands. -/
theorem replaceAll_nil_of_once (hp : pattern ≠ [])
    (hbefore : ¬pattern <:+: before ++ pattern.dropLast) (hafter : ¬pattern <:+: after) :
    replaceAll pattern [] (before ++ pattern ++ after) = before ++ after := by
  rw [replaceAll, splitOn_of_cutFirst? hp ((cutFirst?_pattern_eq_some_iff hp).2 ⟨rfl, hbefore⟩),
    splitOn_of_not_occurs hp hafter, List.intercalate_cons_cons, List.intercalate_singleton,
    List.append_nil]

end Pattern

/-! ## Cutting at a character -/

variable {c : Char} {text before after : List Char}

/-- **The first cut is made where the character stands first.** -/
theorem cutFirst?_eq_some_iff :
    cutFirst? [c] text = some (before, after) ↔ text = before ++ c :: after ∧ c ∉ before := by
  rw [cutFirst?_pattern_eq_some_iff (List.cons_ne_nil c []), List.dropLast_singleton,
    List.append_nil, List.singleton_infix_iff, List.append_assoc, List.singleton_append]

theorem cutFirst?_eq_none_iff : cutFirst? [c] text = none ↔ c ∉ text := by
  rw [cutFirst?_pattern_eq_none_iff, List.singleton_infix_iff]

/-- **The last cut is made where the character stands last.** -/
theorem cutLast?_eq_some_iff :
    cutLast? [c] text = some (before, after) ↔ text = before ++ c :: after ∧ c ∉ after := by
  rw [cutLast?_pattern_eq_some_iff (List.cons_ne_nil c []), List.tail_cons, List.nil_append,
    List.singleton_infix_iff, List.append_assoc, List.singleton_append]

theorem cutLast?_eq_none_iff : cutLast? [c] text = none ↔ c ∉ text := by
  rw [cutLast?_pattern_eq_none_iff, List.singleton_infix_iff]

/-- A character of a text stands somewhere last. -/
theorem exists_last (h : c ∈ text) : ∃ before after, text = before ++ c :: after ∧ c ∉ after := by
  obtain ⟨⟨before, after⟩, hcut⟩ := Option.ne_none_iff_exists'.1
    (mt cutLast?_eq_none_iff.1 (not_not.2 h))
  exact ⟨before, after, cutLast?_eq_some_iff.1 hcut⟩

/-! ## A character between two texts -/

variable {front back : List Char}

/-- A character that the first of two texts lacks stands in the second. -/
theorem exists_of_notMem_front (hfront : c ∉ front) (h : before ++ c :: after = front ++ back) :
    ∃ between, before = front ++ between ∧ back = between ++ c :: after := by
  rcases List.append_eq_append_iff.1 h with ⟨rest, rfl, hrest⟩ | ⟨rest, rfl, hrest⟩
  · cases rest with
    | nil => exact ⟨[], by simp, by simpa using hrest.symm⟩
    | cons d rest =>
        obtain ⟨rfl, -⟩ := List.cons.inj hrest
        exact absurd (List.mem_append_right _ List.mem_cons_self) hfront
  · exact ⟨rest, rfl, hrest⟩

/-- A character that the second of two texts lacks stands in the first. -/
theorem exists_of_notMem_back (hback : c ∉ back) (h : before ++ c :: after = front ++ back) :
    ∃ between, front = before ++ c :: between ∧ after = between ++ back := by
  rcases List.append_eq_append_iff.1 h with ⟨rest, rfl, hrest⟩ | ⟨rest, rfl, hrest⟩
  · cases rest with
    | nil =>
        rw [List.nil_append] at hrest
        exact absurd (hrest ▸ List.mem_cons_self) hback
    | cons d rest =>
        obtain ⟨rfl, hafter⟩ := List.cons.inj hrest
        exact ⟨rest, rfl, hafter⟩
  · exact absurd (hrest ▸ List.mem_append_right _ List.mem_cons_self) hback

theorem beforeFirst_cons_of_ne {d : Char} (h : d ≠ c) (text : List Char) :
    beforeFirst [c] (d :: text) = d :: beforeFirst [c] text := by
  have hstart : afterStart? [c] (d :: text) = none := by
    rw [afterStart?, if_neg (Ne.symm h)]
  rw [beforeFirst, beforeFirst, cutFirst?, hstart]
  cases cutFirst? [c] text <;> rfl

/-- A pattern without the character stands on one side of it. -/
theorem infix_of_infix_cons {pattern : List Char} (hc : c ∉ pattern)
    (h : pattern <:+: front ++ c :: back) : pattern <:+: front ∨ pattern <:+: back := by
  obtain ⟨before, after, h⟩ := h
  rcases List.append_eq_append_iff.1 h with ⟨rest, rfl, -⟩ | ⟨rest, hrest, hback⟩
  · exact Or.inl ⟨before, rest, rfl⟩
  · cases rest with
    | nil => exact Or.inl ⟨before, [], by simpa using hrest⟩
    | cons d rest =>
        obtain ⟨rfl, rfl⟩ := List.cons.inj hback
        obtain ⟨between, -, rfl⟩ := exists_of_notMem_back hc hrest.symm
        exact Or.inr ⟨between, after, rfl⟩

end Text
end ResourceStubs
