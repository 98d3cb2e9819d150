import ResourceStubs.Proofs.Java.TypeRoundTrip
import ResourceStubs.Proofs.Text.Joined

/-!
# Even brackets with uneven parts

The reader counts the brackets of an expression, and counts them again in every part that it
cuts out.  The arguments are what stands between the first opening bracket and the last
closing one, and these two need not belong together: in `Outer<A>.Inner<B>` the brackets are
even, and in the argument `A>.Inner<B` they are not.  So an error about unbalanced brackets
can be about a part of an expression whose own brackets are balanced.

* `exists_reopened`: the arguments of a balanced expression can only be uneven by closing a
  bracket too many and opening it again.
* `HasUnevenPart.sideBySide`: hence there are brackets side by side (`SideBySide`) wherever a
  balanced expression has an uneven part.
* `Denotes.not_sideBySide`: an expression with brackets side by side has no type at all.
* `resolveChars_eq_unbalanced_iff`: the error is reported if and only if the reader comes upon
  uneven brackets (`HasUnevenPart`).
* `unbalanced_iff`: all of this together.

The first two are about depths, and go down to where the brackets stand.  The last two follow
the parts of an expression, which are shorter than the expression.
-/

namespace ResourceStubs
namespace JavaType

open Text

variable {cs base parameters behind : List Char}

/-! ## Uneven brackets -/

/-- Some beginning of the text closes more brackets than it opens, or the whole text does not
close as many as it opens. -/
def UnevenBrackets (cs : List Char) : Prop :=
  (∃ before, before <+: cs ∧ before.count '<' < before.count '>') ∨ cs.count '<' ≠ cs.count '>'

theorem unevenBrackets_iff : UnevenBrackets cs ↔ balanced cs = false := by
  rw [← Bool.not_eq_true, balanced, balancedFrom_iff, not_and_or, UnevenBrackets]
  refine or_congr ?_ ?_
  · rw [not_forall]
    refine exists_congr fun before => ?_
    rw [Classical.not_imp, netDepth]
    refine and_congr_right fun _ => ?_
    omega
  · rw [netDepth]
    omega

instance (cs : List Char) : Decidable (UnevenBrackets cs) :=
  decidable_of_iff (balanced cs = false) unevenBrackets_iff.symm

theorem balanced_trim (cs : List Char) : balanced (trim cs) = balanced cs := by
  rw [← balanced_withoutBlanks, withoutBlanks_trim, balanced_withoutBlanks]

/-- A mark of an array at the end makes no brackets uneven. -/
theorem balanced_of_append_mark (h : balanced (cs ++ ['[', ']']) = true) :
    balanced cs = true := by
  obtain ⟨hbefore, htotal⟩ := balancedFrom_iff.1 h
  have hmark : netDepth ['[', ']'] = 0 := by decide
  rw [netDepth_append, hmark, Int.add_zero] at htotal
  exact balancedFrom_iff.2
    ⟨fun before hbegin => hbefore before (hbegin.trans (List.prefix_append _ _)), htotal⟩

/-- Where there are uneven brackets, there is a bracket. -/
theorem UnevenBrackets.exists_bracket (h : UnevenBrackets cs) : '<' ∈ cs ∨ '>' ∈ cs := by
  by_contra hnone
  rw [not_or] at hnone
  rw [unevenBrackets_iff, balanced_of_notMem hnone.1 hnone.2] at h
  exact absurd h (by decide)

/-! ## Brackets side by side -/

/-- A closing bracket is followed by an opening one, with no bracket between them, and also no
comma, unless all brackets are closed there.  Blanks do not count. -/
def SideBySide (cs : List Char) : Prop :=
  ∃ before between after, withoutBlanks cs = before ++ '>' :: between ++ '<' :: after ∧
    '<' ∉ between ∧ '>' ∉ between ∧ (',' ∈ between → netDepth (before ++ ['>']) = 0)

theorem sideBySide_trim : SideBySide (trim cs) ↔ SideBySide cs := by
  rw [SideBySide, withoutBlanks_trim, SideBySide]

theorem SideBySide.bracket_mem (h : SideBySide cs) : '<' ∈ cs ∧ '>' ∈ cs := by
  obtain ⟨before, between, after, hcs, -⟩ := h
  have hmem : '<' ∈ withoutBlanks cs ∧ '>' ∈ withoutBlanks cs := by
    rw [hcs]
    simp
  exact ⟨(List.mem_filter.1 hmem.1).1, (List.mem_filter.1 hmem.2).1⟩

/-- What stands side by side in an element does so in the array. -/
theorem SideBySide.of_element {element : List Char} (hparts : trim cs = element ++ ['[', ']'])
    (h : SideBySide element) : SideBySide cs := by
  obtain ⟨before, between, after, hcs, hbetween⟩ := h
  refine ⟨before, between, after ++ ['[', ']'], ?_, hbetween⟩
  have hmark : withoutBlanks ['[', ']'] = ['[', ']'] := by decide
  rw [← withoutBlanks_trim, hparts, withoutBlanks_append, hcs, hmark]
  simp

/-- And the other way round, since the mark has no such bracket. -/
theorem SideBySide.element {element : List Char} (hparts : trim cs = element ++ ['[', ']'])
    (h : SideBySide cs) : SideBySide element := by
  obtain ⟨before, between, after, hcs, hbetween⟩ := h
  rw [← withoutBlanks_trim, hparts, withoutBlanks_append] at hcs
  obtain ⟨rest, hrest, -⟩ := exists_of_notMem_back (by decide) hcs.symm
  exact ⟨before, between, rest, hrest, hbetween⟩

/-! ## The arguments of a balanced expression -/

/-- What the brackets of a balanced expression with arguments are like, up to the first one,
behind the last one and between the two. -/
theorem brackets_of_parts (h : balanced (base ++ '<' :: (parameters ++ '>' :: behind)) = true)
    (hopen : '<' ∉ base) (hclose : '>' ∉ behind) :
    '>' ∉ base ∧ '<' ∉ behind ∧ netDepth parameters = 0 := by
  have hbase : '>' ∉ base := by
    have hnonneg := netDepth_nonneg_of_prefix h (List.prefix_append base _)
    rw [netDepth, List.count_eq_zero.2 hopen] at hnonneg
    exact List.count_eq_zero.1 (by omega)
  have hcut : base ++ '<' :: (parameters ++ '>' :: behind) =
      (base ++ '<' :: parameters) ++ '>' :: behind := by simp
  rw [hcut] at h
  obtain ⟨htotal, hbehind⟩ := netDepth_of_last_close h hclose
  refine ⟨hbase, hbehind, ?_⟩
  rw [netDepth_append, netDepth_append, netDepth_cons, netDepth_of_notMem hopen hbase] at htotal
  simp [bracketStep] at htotal
  omega

/-- Where no beginning closes more than one bracket too many, and the whole closes all, a text
is uneven only if it closes one too many and opens it again. -/
theorem exists_reopened (hbefore : ∀ before, before <+: cs → -1 ≤ netDepth before)
    (htotal : netDepth cs = 0) (huneven : UnevenBrackets cs) :
    ∃ before between after, cs = before ++ '>' :: between ++ '<' :: after ∧
      '<' ∉ between ∧ '>' ∉ between ∧ netDepth (before ++ ['>']) = -1 := by
  -- a beginning that closes one too many
  obtain ⟨front, hfront, hcount⟩ : ∃ front, front <+: cs ∧ netDepth front = -1 := by
    rcases huneven with ⟨front, hfront, hcount⟩ | hcount
    · have hge := hbefore front hfront
      refine ⟨front, hfront, ?_⟩
      rw [netDepth] at hge ⊢
      omega
    · rw [netDepth] at htotal
      omega
  obtain ⟨back, rfl⟩ := hfront
  rw [netDepth_append, hcount] at htotal
  have hclose : '>' ∈ front := by
    rw [netDepth] at hcount
    exact List.count_pos_iff.1 (by omega)
  have hopen : '<' ∈ back := by
    rw [netDepth] at htotal
    exact List.count_pos_iff.1 (by omega)
  -- it is cut at its last bracket that closes, and the rest at its first that opens
  obtain ⟨before, left, rfl, hleft⟩ := exists_last hclose
  obtain ⟨right, after, rfl, hright⟩ := List.eq_append_cons_of_mem hopen
  have hlast := hbefore (before ++ ['>']) ⟨left ++ (right ++ '<' :: after), by simp⟩
  have hmiddle := hbefore (before ++ '>' :: left ++ right) ⟨'<' :: after, by simp⟩
  have hsplit : before ++ '>' :: left = before ++ ['>'] ++ left := by simp
  have hleftDepth : netDepth left = (left.count '<' : Int) := by
    rw [netDepth, List.count_eq_zero.2 hleft]
    omega
  have hrightDepth : netDepth right = -(right.count '>' : Int) := by
    rw [netDepth, List.count_eq_zero.2 hright]
    omega
  rw [hsplit, netDepth_append, hleftDepth] at hcount
  rw [hsplit, netDepth_append, netDepth_append, hleftDepth, hrightDepth] at hmiddle
  refine ⟨before, left ++ right, after, by simp, ?_, ?_, by omega⟩
  · rw [List.mem_append, not_or]
    exact ⟨List.count_eq_zero.1 (by omega), hright⟩
  · rw [List.mem_append, not_or]
    exact ⟨hleft, List.count_eq_zero.1 (by omega)⟩

/-- The parts of a balanced expression, less its blanks. -/
theorem exists_parts (hbalanced : balanced cs = true)
    (hparts : trim cs = base ++ '<' :: parameters ++ '>' :: behind) (hopen : '<' ∉ base)
    (hclose : '>' ∉ behind) :
    ∃ front back, withoutBlanks cs = front ++ '<' :: (withoutBlanks parameters ++ '>' :: back) ∧
      balanced (front ++ '<' :: (withoutBlanks parameters ++ '>' :: back)) = true ∧
      '<' ∉ front ∧ '>' ∉ front ∧ '<' ∉ back ∧ netDepth (withoutBlanks parameters) = 0 := by
  have hcs := withoutBlanks_of_parts hparts
  rw [← balanced_withoutBlanks, hcs] at hbalanced
  have hfront : '<' ∉ withoutBlanks base := fun hmem => hopen (List.mem_filter.1 hmem).1
  have hback : '>' ∉ withoutBlanks behind := fun hmem => hclose (List.mem_filter.1 hmem).1
  obtain ⟨hbase, hbehind, hdepth⟩ := brackets_of_parts hbalanced hfront hback
  exact ⟨_, _, hcs, hbalanced, hfront, hbase, hbehind, hdepth⟩

/-- **If the arguments of a balanced expression are uneven, brackets stand side by side.** -/
theorem sideBySide_of_uneven_arguments (hbalanced : balanced cs = true)
    (hparts : trim cs = base ++ '<' :: parameters ++ '>' :: behind) (hopen : '<' ∉ base)
    (hclose : '>' ∉ behind) (huneven : UnevenBrackets parameters) : SideBySide cs := by
  obtain ⟨front, back, hcs, hbalanced, hfrontOpen, hfrontClose, -, htotal⟩ :=
    exists_parts hbalanced hparts hopen hclose
  have hbefore : ∀ before, before <+: withoutBlanks parameters → -1 ≤ netDepth before := by
    intro before hbegin
    have hlonger : front ++ '<' :: before <+:
        front ++ '<' :: (withoutBlanks parameters ++ '>' :: back) :=
      (List.prefix_append_right_inj _).2 (List.cons_prefix_cons.2
        ⟨rfl, hbegin.trans (List.prefix_append _ _)⟩)
    have hnonneg := netDepth_nonneg_of_prefix hbalanced hlonger
    rw [netDepth_append, netDepth_of_notMem hfrontOpen hfrontClose, netDepth_cons] at hnonneg
    simp [bracketStep] at hnonneg
    omega
  rw [unevenBrackets_iff, ← balanced_withoutBlanks, ← unevenBrackets_iff] at huneven
  obtain ⟨before, between, after, hparameters, hfirst, hsecond, hdepth⟩ :=
    exists_reopened hbefore htotal huneven
  refine ⟨front ++ '<' :: before, between, after ++ '>' :: back, ?_, hfirst, hsecond, fun _ => ?_⟩
  · rw [hcs, hparameters]
    simp
  · rw [List.append_assoc, List.cons_append, netDepth_append,
      netDepth_of_notMem hfrontOpen hfrontClose, netDepth_cons, hdepth]
    rfl

/-- What stands side by side in an argument does so in the expression. -/
theorem SideBySide.of_argument (hparts : trim cs = base ++ '<' :: parameters ++ '>' :: behind)
    {piece : List Char} (hpiece : piece ∈ splitArguments parameters) (h : SideBySide piece) :
    SideBySide cs := by
  obtain ⟨before, between, after, hcut, hopen, hclose, hcomma⟩ := h
  have hisPiece := isPiece_of_mem_splitArguments hpiece
  rw [withoutBlanks_of_forall hisPiece.no_blank] at hcut
  -- a comma at depth zero would have been a place to cut
  have hno : ',' ∉ between := by
    intro hmem
    obtain ⟨left, right, rfl⟩ := List.append_of_mem hmem
    refine hisPiece.no_outer_comma (before ++ ['>'] ++ left) (right ++ '<' :: after)
      (by simp [hcut]) ?_
    rw [netDepth_append, hcomma hmem, netDepth_of_notMem
      (fun hmem => hopen (List.mem_append_left _ hmem))
      fun hmem => hclose (List.mem_append_left _ hmem)]
    rfl
  obtain ⟨left, right, hinfix⟩ : piece <:+: withoutBlanks parameters := by
    rw [← intercalate_splitArguments]
    exact infix_intercalate_of_mem hpiece
  refine ⟨withoutBlanks base ++ '<' :: (left ++ before), between,
    after ++ right ++ '>' :: withoutBlanks behind, ?_, hopen, hclose, fun hmem => absurd hmem hno⟩
  rw [withoutBlanks_of_parts hparts, ← hinfix, hcut]
  simp

/-- Both brackets stand between those of the arguments. -/
theorem exists_between_parts {front inner back before between after : List Char}
    (hfront : '>' ∉ front) (hback : '<' ∉ back)
    (h : before ++ '>' :: between ++ '<' :: after = front ++ '<' :: (inner ++ '>' :: back)) :
    ∃ left right, before = front ++ '<' :: left ∧
      inner = left ++ '>' :: between ++ '<' :: right := by
  obtain ⟨left, hbefore, hrest⟩ : ∃ left, before = front ++ ['<'] ++ left ∧
      inner ++ '>' :: back = left ++ '>' :: (between ++ '<' :: after) := by
    refine exists_of_notMem_front (by simp [hfront]) ?_
    rw [← List.cons_append, ← List.append_assoc, h]
    simp
  obtain ⟨right, hinner, -⟩ : ∃ right, inner = left ++ '>' :: between ++ '<' :: right ∧
      after = right ++ '>' :: back := by
    refine exists_of_notMem_back (by simp [hback]) ?_
    rw [hrest]
    simp
  exact ⟨left, right, by rw [hbefore, List.append_assoc, List.singleton_append], hinner⟩

/-- **What stands side by side in an expression with balanced arguments does so in one of
them.** -/
theorem SideBySide.argument (hbalanced : balanced cs = true)
    (hparts : trim cs = base ++ '<' :: parameters ++ '>' :: behind) (hopen : '<' ∉ base)
    (hclose : '>' ∉ behind) (hpieces : ∀ piece ∈ splitArguments parameters, balanced piece = true)
    (h : SideBySide cs) : ∃ piece ∈ splitArguments parameters, SideBySide piece := by
  obtain ⟨before, between, after, hcut, hbetweenOpen, hbetweenClose, hcomma⟩ := h
  obtain ⟨front, back, hcs, -, hfrontOpen, hfrontClose, hback, -⟩ :=
    exists_parts hbalanced hparts hopen hclose
  obtain ⟨left, right, rfl, hparameters⟩ :=
    exists_between_parts hfrontClose hback (hcut.symm.trans hcs)
  -- a bracket is open between the two, so that a comma there would be within the arguments
  have hno : ',' ∉ between := by
    intro hmem
    have hinner := (balanced_iff_forall_pieces parameters).2 hpieces
    rw [← balanced_withoutBlanks, hparameters] at hinner
    have hbegin : left ++ ['>'] <+: left ++ '>' :: between ++ '<' :: right :=
      ⟨between ++ '<' :: right, by simp⟩
    have hnonneg := netDepth_nonneg_of_prefix hinner hbegin
    have hzero := hcomma hmem
    rw [List.append_assoc, List.cons_append, netDepth_append,
      netDepth_of_notMem hfrontOpen hfrontClose, netDepth_cons] at hzero
    simp [bracketStep] at hzero
    omega
  have hpattern : '>' :: between ++ ['<'] <:+: [','].intercalate (splitArguments parameters) := by
    rw [intercalate_splitArguments, hparameters]
    exact ⟨left, right, by simp⟩
  obtain ⟨piece, hpiece, left, right, hinfix⟩ := exists_infix_of_infix_intercalate
    (by simpa using hno) (splitArgumentsFrom_ne_nil 0 parameters) hpattern
  refine ⟨piece, hpiece, left, between, right, ?_, hbetweenOpen, hbetweenClose,
    fun hmem => absurd hmem hno⟩
  rw [withoutBlanks_of_forall (isPiece_of_mem_splitArguments hpiece).no_blank, ← hinfix]
  simp

/-! ## The parts in which uneven brackets are found -/

variable {aliases : Aliases} {t : JavaType}

/-- Reading the expression comes upon uneven brackets: its own, those of the element of an
array, or those of an argument before which all arguments have a type. -/
inductive HasUnevenPart (aliases : Aliases) : List Char → Prop
  | self {cs : List Char} (huneven : UnevenBrackets cs) : HasUnevenPart aliases cs
  | element {cs element : List Char} (hparts : trim cs = element ++ ['[', ']'])
      (helement : HasUnevenPart aliases element) : HasUnevenPart aliases cs
  | argument {cs base parameters behind piece : List Char} {front rest : List (List Char)}
      (harray : ¬['[', ']'] <:+ trim cs)
      (hparts : trim cs = base ++ '<' :: parameters ++ '>' :: behind)
      (hopen : '<' ∉ base) (hclose : '>' ∉ behind)
      (hpieces : splitArguments parameters = front ++ piece :: rest)
      (hfront : ∀ p ∈ front, ∃ t, Denotes aliases p t)
      (hpiece : HasUnevenPart aliases piece) : HasUnevenPart aliases cs

theorem HasUnevenPart.exists_bracket (h : HasUnevenPart aliases cs) : '<' ∈ cs ∨ '>' ∈ cs := by
  induction h with
  | self huneven => exact huneven.exists_bracket
  | @element cs element hparts _ ih =>
      have hmem : ∀ c ∈ element, c ∈ cs := fun c hc =>
        mem_of_mem_trim (hparts ▸ List.mem_append_left _ hc)
      exact ih.imp (hmem _) (hmem _)
  | argument _ hparts _ _ _ _ _ _ =>
      exact Or.inl (mem_of_mem_trim (by rw [hparts]; simp))

/-- **Only brackets side by side make the parts of a balanced expression uneven.** -/
theorem HasUnevenPart.sideBySide (h : HasUnevenPart aliases cs) (hbalanced : balanced cs = true) :
    SideBySide cs := by
  induction h with
  | self huneven =>
      rw [unevenBrackets_iff, hbalanced] at huneven
      exact absurd huneven (by decide)
  | @element cs element hparts _ ih =>
      refine (ih ?_).of_element hparts
      rw [← balanced_trim, hparts] at hbalanced
      exact balanced_of_append_mark hbalanced
  | @argument cs base parameters behind piece front rest _ hparts hopen hclose hpieces _ _ ih =>
      have hmem : piece ∈ splitArguments parameters := by
        rw [hpieces]
        exact List.mem_append_right _ List.mem_cons_self
      cases hpiece : balanced piece with
      | true => exact (ih hpiece).of_argument hparts hmem
      | false =>
          refine sideBySide_of_uneven_arguments hbalanced hparts hopen hclose ?_
          rw [unevenBrackets_iff, ← Bool.not_eq_true, balanced_iff_forall_pieces]
          intro hall
          rw [hall piece hmem] at hpiece
          exact absurd hpiece (by decide)

/-- **An expression with brackets side by side has no type.** -/
theorem Denotes.not_sideBySide (h : Denotes aliases cs t) : ¬SideBySide cs := by
  induction h with
  | array _ hparts _ ih => exact fun hside => ih (hside.element hparts)
  | @generic cs base parameters behind name arguments hcs _ hparts hopen hclose hlength
      harguments _ ihArguments _ =>
      intro hside
      have hexists : ∀ piece ∈ splitArguments parameters, ∃ t,
          (piece, t) ∈ (splitArguments parameters).zip arguments := by
        intro piece hpiece
        rw [← List.map_fst_zip (Nat.le_of_eq hlength)] at hpiece
        obtain ⟨⟨_, t⟩, hmem, rfl⟩ := List.mem_map.1 hpiece
        exact ⟨t, hmem⟩
      have hpieces : ∀ piece ∈ splitArguments parameters, balanced piece = true := by
        intro piece hpiece
        obtain ⟨t, ht⟩ := hexists piece hpiece
        rw [← balanced_trim]
        exact (harguments piece t ht).isExpression.balanced
      have hbalanced := hcs.balanced
      rw [balanced_trim] at hbalanced
      obtain ⟨piece, hpiece, hsidePiece⟩ := hside.argument hbalanced hparts hopen hclose hpieces
      obtain ⟨t, ht⟩ := hexists piece hpiece
      exact ihArguments piece t ht hsidePiece
  | leaf _ _ hopen _ => exact fun hside => hopen (sideBySide_trim.2 hside).bracket_mem.1

/-! ## What the reader reports -/

theorem resolveChars_of_uneven (h : UnevenBrackets cs) :
    resolveChars aliases cs = .error (.unbalanced (String.ofList (trim cs))) := by
  rw [unevenBrackets_iff, ← balanced_trim] at h
  have hne : trim cs ≠ [] := by
    intro hnil
    rw [hnil] at h
    exact absurd h (by decide)
  rw [resolveChars]
  simp [hne, h]

/-- Uneven brackets of an argument are reported if all arguments before it have a type. -/
theorem resolveArguments_eq_unbalanced_iff {expression text : String}
    {pieces : List (List Char)} :
    resolveArguments aliases expression pieces = .error (.unbalanced text) ↔
      ∃ front piece rest, pieces = front ++ piece :: rest ∧
        (∀ p ∈ front, ∃ t, resolveChars aliases p = .ok t) ∧
        resolveChars aliases piece = .error (.unbalanced text) := by
  induction pieces with
  | nil =>
      rw [resolveArguments]
      constructor
      · rintro ⟨⟩
      · rintro ⟨front, piece, rest, h, -⟩
        exact absurd h (by simp)
  | cons first pieces ih =>
      rw [exists_place_cons_iff, ← ih, ← exists_and_right]
      by_cases hnil : first = []
      · subst hnil
        rw [resolveArguments, resolveChars_nil]
        constructor
        · rintro ⟨⟩
        · rintro (⟨⟨⟩⟩ | ⟨t, ⟨⟩, -⟩)
      · rw [resolveArguments_cons hnil, bind_eq_error_iff]
        refine or_congr_right (exists_congr fun t => and_congr_right fun _ => ?_)
        rw [bind_eq_error_iff, or_iff_left]
        rintro ⟨ts, -, ⟨⟩⟩

theorem hasUnevenPart_of_array {element : List Char} (hbalanced : balanced cs = true)
    (hparts : trim cs = element ++ ['[', ']']) :
    HasUnevenPart aliases cs ↔ HasUnevenPart aliases element := by
  refine ⟨fun h => ?_, .element hparts⟩
  cases h with
  | self huneven =>
      rw [unevenBrackets_iff, hbalanced] at huneven
      exact absurd huneven (by decide)
  | element hparts' helement =>
      rw [hparts] at hparts'
      rwa [List.append_cancel_right hparts']
  | argument harray _ _ _ _ _ _ => exact absurd ⟨element, hparts.symm⟩ harray

theorem hasUnevenPart_of_generic (hbalanced : balanced cs = true)
    (harray : ¬['[', ']'] <:+ trim cs)
    (hparts : genericParts? (trim cs) = some (base, parameters)) :
    HasUnevenPart aliases cs ↔ ∃ front piece rest,
      splitArguments parameters = front ++ piece :: rest ∧
        (∀ p ∈ front, ∃ t, Denotes aliases p t) ∧ HasUnevenPart aliases piece := by
  constructor
  · intro h
    cases h with
    | self huneven =>
        rw [unevenBrackets_iff, hbalanced] at huneven
        exact absurd huneven (by decide)
    | element hparts' _ => exact absurd ⟨_, hparts'.symm⟩ harray
    | argument _ hparts' hopen hclose hpieces hfront hpiece =>
        have hsame := genericParts?_eq_some_iff.2 ⟨_, hparts', hopen, hclose⟩
        obtain ⟨rfl, rfl⟩ := Prod.mk.inj (Option.some.inj (hparts.symm.trans hsame))
        exact ⟨_, _, _, hpieces, hfront, hpiece⟩
  · rintro ⟨front, piece, rest, hpieces, hfront, hpiece⟩
    obtain ⟨behind, hcut, hopen, hclose⟩ := genericParts?_eq_some_iff.1 hparts
    exact .argument harray hcut hopen hclose hpieces hfront hpiece

/-- Of an expression with arguments, only those of its arguments are reported, if the class in
front of them has none. -/
theorem resolveChars_generic_eq_unbalanced_iff (hcs : IsExpression (trim cs))
    (harray : arrayElement? (trim cs) = none)
    (hparts : genericParts? (trim cs) = some (base, parameters)) {text : String}
    (hbase : resolveChars aliases base ≠ .error (.unbalanced text)) :
    resolveChars aliases cs = .error (.unbalanced text) ↔
      resolveArguments aliases (String.ofList (trim cs)) (splitArguments parameters) =
        .error (.unbalanced text) := by
  rw [resolveChars_eq_of_generic aliases hcs harray hparts, bind_eq_error_iff, or_iff_left]
  rintro ⟨arguments, -, h⟩
  rcases bind_eq_error_iff.1 h with h | ⟨s, -, h⟩
  · exact hbase h
  · cases s <;> cases h

/-- **Uneven brackets are reported if and only if the reader comes upon them**, by induction
on the length of the expression. -/
theorem resolveChars_eq_unbalanced_iff (cs : List Char) :
    (∃ text, resolveChars aliases cs = .error (.unbalanced text)) ↔ HasUnevenPart aliases cs := by
  induction hn : cs.length using Nat.strongRecOn generalizing cs with
  | ind n ih =>
      subst hn
      by_cases huneven : UnevenBrackets cs
      · exact ⟨fun _ => .self huneven, fun _ => ⟨_, resolveChars_of_uneven huneven⟩⟩
      have hbalanced : balanced cs = true := by
        rwa [unevenBrackets_iff, Bool.not_eq_false] at huneven
      have htrim := length_trim_le cs
      by_cases hnil : trim cs = []
      · have herror : resolveChars aliases cs = .error .empty := by
          rw [resolveChars]
          simp [hnil]
        rw [herror]
        refine ⟨by rintro ⟨text, ⟨⟩⟩, fun h => ?_⟩
        have hmem := (sideBySide_trim.2 (h.sideBySide hbalanced)).bracket_mem.1
        exact absurd hmem (by simp [hnil])
      have hcs : IsExpression (trim cs) := ⟨hnil, by rwa [balanced_trim]⟩
      cases harray : arrayElement? (trim cs) with
      | some element =>
          have hlength := length_arrayElement? harray
          rw [hasUnevenPart_of_array hbalanced (arrayElement?_eq_some_iff.1 harray),
            ← ih _ (by omega) element rfl, resolveChars_of_isExpression hcs, harray]
          refine exists_congr fun text => ?_
          rw [bind_eq_error_iff, or_iff_left]
          rintro ⟨t, -, ⟨⟩⟩
      | none =>
          cases hparts : genericParts? (trim cs) with
          | none =>
              rw [resolveChars_of_leaf hcs harray hparts]
              refine ⟨by rintro ⟨text, ⟨⟩⟩, fun h => ?_⟩
              have hmem := (sideBySide_trim.2 (h.sideBySide hbalanced)).bracket_mem.1
              exact absurd hmem ((genericParts?_eq_none_iff hcs.balanced).1 hparts).1
          | some parts =>
              obtain ⟨base, parameters⟩ := parts
              have hlength := length_genericParts? hparts
              rw [hasUnevenPart_of_generic hbalanced (arrayElement?_eq_none_iff.1 harray) hparts]
              obtain ⟨behind, hcut, hopen, hclose⟩ := genericParts?_eq_some_iff.1 hparts
              have hbrackets := hcs.balanced
              rw [hcut, List.append_assoc, List.cons_append] at hbrackets
              obtain ⟨hbaseClose, -, -⟩ := brackets_of_parts hbrackets hopen hclose
              have hbase : ∀ text, resolveChars aliases base ≠ .error (.unbalanced text) := by
                intro text herror
                rcases ((ih _ (by omega) base rfl).1 ⟨text, herror⟩).exists_bracket with h | h
                · exact hopen h
                · exact hbaseClose h
              simp only [resolveChars_generic_eq_unbalanced_iff hcs harray hparts (hbase _),
                resolveArguments_eq_unbalanced_iff]
              have hshorter : ∀ {front piece rest},
                  splitArguments parameters = front ++ piece :: rest →
                    piece.length < cs.length := by
                intro front piece rest hpieces
                have hmem : piece ∈ splitArguments parameters := by
                  rw [hpieces]
                  exact List.mem_append_right _ List.mem_cons_self
                have hle := length_le_of_mem_splitArguments hmem
                omega
              constructor
              · rintro ⟨text, front, piece, rest, hpieces, hfront, hpiece⟩
                exact ⟨front, piece, rest, hpieces,
                  fun p hp => (hfront p hp).imp fun t => denotes_of_resolveChars p t,
                  (ih _ (hshorter hpieces) piece rfl).1 ⟨text, hpiece⟩⟩
              · rintro ⟨front, piece, rest, hpieces, hfront, hpiece⟩
                obtain ⟨text, htext⟩ := (ih _ (hshorter hpieces) piece rfl).2 hpiece
                exact ⟨text, front, piece, rest, hpieces,
                  fun p hp => (hfront p hp).imp fun t => Denotes.resolveChars_eq, htext⟩

/-- **When unbalanced brackets are reported.**  Uneven brackets in an expression always are,
with the whole of it.  Otherwise they are reported if and only if the reader comes upon uneven
brackets in a part.  An expression whose brackets are even has such a part only if a closing
bracket is followed by an opening one; so without brackets side by side, unbalanced brackets
are reported for uneven ones and for nothing else.  With brackets side by side, there is never
a type. -/
theorem unbalanced_iff (aliases : Aliases) (expression : String) :
    (UnevenBrackets expression.toList →
      resolve aliases expression = .error (.unbalanced (String.ofList (trim expression.toList)))) ∧
    ((∃ text, resolve aliases expression = .error (.unbalanced text)) ↔
      HasUnevenPart aliases expression.toList) ∧
    (¬SideBySide expression.toList →
      ((∃ text, resolve aliases expression = .error (.unbalanced text)) ↔
        UnevenBrackets expression.toList)) ∧
    (SideBySide expression.toList → ∀ t, resolve aliases expression ≠ .ok t) := by
  have hreported : (∃ text, resolve aliases expression = .error (.unbalanced text)) ↔
      HasUnevenPart aliases expression.toList := resolveChars_eq_unbalanced_iff expression.toList
  refine ⟨resolveChars_of_uneven, hreported, fun hside => ⟨fun h => ?_, fun h => ?_⟩,
    fun hside t h => (resolve_eq_ok_iff.1 h).not_sideBySide hside⟩
  · by_contra huneven
    rw [unevenBrackets_iff, Bool.not_eq_false] at huneven
    exact hside ((hreported.1 h).sideBySide huneven)
  · exact ⟨_, resolveChars_of_uneven h⟩

/-- A bracket too many is reported, and so is a class within a class that has arguments; the
brackets of a map are not. -/
theorem unbalanced_iff_maps :
    resolve [] " List<String" = .error (.unbalanced "List<String") ∧
    (∃ text, resolve [] "Outer<A>.Inner<B>" = .error (.unbalanced text)) ∧
    (∀ t, resolve [] "Outer<A>.Inner<B>" ≠ .ok t) ∧
    ¬∃ text, resolve [] " Map<String,List< Foo[ ]>> " = .error (.unbalanced text) := by
  obtain ⟨huneven, -, -, -⟩ := unbalanced_iff [] " List<String"
  obtain ⟨-, hpart, -, hside⟩ := unbalanced_iff [] "Outer<A>.Inner<B>"
  obtain ⟨-, -, heven, hmap⟩ := unbalanced_iff [] " Map<String,List< Foo[ ]>> "
  refine ⟨huneven (by decide), hpart.2 ?_, hside ?_, fun h => ?_⟩
  · have hpieces : splitArguments "A>.Inner<B".toList = [] ++ "A>.Inner<B".toList :: [] := by
      decide
    have hparts : trim "Outer<A>.Inner<B>".toList =
        "Outer".toList ++ '<' :: "A>.Inner<B".toList ++ '>' :: [] := by decide
    exact .argument (by decide) hparts (by decide) (by decide) hpieces (by simp)
      (.self (by decide))
  · exact ⟨"Outer<A".toList, ".Inner".toList, "B>".toList, by decide⟩
  · have hnot : ¬SideBySide " Map<String,List< Foo[ ]>> ".toList :=
      fun hmem => hmap hmem _ resolve_mapOfLists
    exact absurd ((heven hnot).1 h) (by decide)

/-- The brackets are even in the whole, and the error is about a text that was cut out of it. -/
theorem unbalanced_although_even :
    ¬UnevenBrackets "Outer<A>.Inner<B>".toList ∧
    resolve [] "Outer<A>.Inner<B>" = .error (.unbalanced "A>.Inner<B") := by
  have hcs : IsExpression (trim "Outer<A>.Inner<B>".toList) := ⟨by decide, by decide⟩
  have hparts : genericParts? (trim "Outer<A>.Inner<B>".toList) =
      some ("Outer".toList, "A>.Inner<B".toList) := by decide
  have hbase : Denotes [] "Outer".toList (named "Outer") := PlainName.denotes (by decide) rfl
  have hpieces : splitArguments "A>.Inner<B".toList = [] ++ "A>.Inner<B".toList :: [] := by
    decide
  refine ⟨by decide, (resolveChars_generic_eq_unbalanced_iff hcs (by decide) hparts ?_).2 ?_⟩
  · rw [hbase.resolveChars_eq]
    rintro ⟨⟩
  · exact resolveArguments_eq_unbalanced_iff.2 ⟨[], "A>.Inner<B".toList, [], hpieces, by simp,
      resolveChars_of_uneven (by decide)⟩

end JavaType
end ResourceStubs
