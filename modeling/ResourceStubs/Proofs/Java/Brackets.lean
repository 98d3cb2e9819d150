import Mathlib.Data.List.Basic
import ResourceStubs.Java.Resolve
import ResourceStubs.Proofs.Text.Cut

/-!
# Angle brackets and the commas outside them

Two things are asked of a type expression before its parts are read: whether its brackets
are balanced, and where the commas are at which its arguments are cut.  Both follow the
number of brackets that are open, `netDepth`.

* `balancedFrom_iff`: brackets are balanced if no beginning of the text closes more than
  it opens, and the whole text closes as many.
* `splitArgumentsFrom_append`: a text without an outer comma goes into one piece, less its
  blanks.
* `isPiece_of_mem_splitArguments`: no piece has a blank or an outer comma.
* `splitArguments_withoutBlanks`: blanks do not matter for the cut.
-/

namespace ResourceStubs
namespace JavaType

open Text

/-! ## How many brackets are open -/

/-- How many more brackets the text opens than it closes. -/
def netDepth (cs : List Char) : Int :=
  (cs.count '<' : Int) - cs.count '>'

@[simp] theorem netDepth_nil : netDepth [] = 0 := rfl

@[simp] theorem netDepth_cons (c : Char) (cs : List Char) :
    netDepth (c :: cs) = bracketStep c + netDepth cs := by
  rw [netDepth, netDepth, bracketStep, List.count_cons, List.count_cons]
  by_cases hopen : c = '<'
  · subst hopen
    simp
    omega
  · by_cases hclose : c = '>'
    · subst hclose
      simp
      omega
    · simp [hopen, hclose]

theorem netDepth_of_notMem {cs : List Char} (hopen : '<' ∉ cs) (hclose : '>' ∉ cs) :
    netDepth cs = 0 := by
  rw [netDepth, List.count_eq_zero.2 hopen, List.count_eq_zero.2 hclose]
  rfl

theorem netDepth_append (cs ds : List Char) : netDepth (cs ++ ds) = netDepth cs + netDepth ds := by
  rw [netDepth, netDepth, netDepth, List.count_append, List.count_append]
  omega

theorem bracketStep_of_isBlank {c : Char} (h : isBlank c = true) : bracketStep c = 0 := by
  have hopen : c ≠ '<' := by rintro rfl; exact absurd h (by decide)
  have hclose : c ≠ '>' := by rintro rfl; exact absurd h (by decide)
  rw [bracketStep, if_neg hopen, if_neg hclose]

theorem netDepth_withoutBlanks (cs : List Char) : netDepth (withoutBlanks cs) = netDepth cs := by
  induction cs with
  | nil => rfl
  | cons c cs ih =>
      rw [netDepth_cons, ← ih, withoutBlanks, List.filter_cons, ← withoutBlanks]
      cases hblank : isBlank c with
      | true => rw [bracketStep_of_isBlank hblank, if_neg (by decide), Int.zero_add]
      | false => rw [if_pos (by decide), netDepth_cons]

theorem netDepth_eq_zero_iff {cs : List Char} :
    netDepth cs = 0 ↔ cs.count '<' = cs.count '>' := by
  rw [netDepth]
  omega

/-! ## Balanced brackets -/

/-- The first character of a balanced text. -/
theorem balancedFrom_cons (depth : Nat) (c : Char) (cs : List Char) :
    balancedFrom depth (c :: cs) = true ↔
      0 ≤ depth + bracketStep c ∧ balancedFrom (depth + bracketStep c).toNat cs = true := by
  by_cases hopen : c = '<'
  · subst hopen
    have hdepth : ((depth : Int) + bracketStep '<').toNat = depth + 1 := by
      rw [show bracketStep '<' = 1 from rfl]
      omega
    have hstep : balancedFrom depth ('<' :: cs) = balancedFrom (depth + 1) cs := by
      simp [balancedFrom]
    rw [hdepth, hstep, show bracketStep '<' = 1 from rfl]
    exact ⟨fun h => ⟨by omega, h⟩, And.right⟩
  · by_cases hclose : c = '>'
    · subst hclose
      rw [show bracketStep '>' = -1 from rfl]
      cases depth with
      | zero => simp [balancedFrom]
      | succ depth =>
          have hdepth : (((depth + 1 : Nat) : Int) + -1).toNat = depth := by omega
          have hstep : balancedFrom (depth + 1) ('>' :: cs) = balancedFrom depth cs := by
            simp [balancedFrom]
          rw [hdepth, hstep]
          exact ⟨fun h => ⟨by omega, h⟩, And.right⟩
    · have hstep : balancedFrom depth (c :: cs) = balancedFrom depth cs := by
        simp [balancedFrom, hopen, hclose]
      rw [hstep, bracketStep, if_neg hopen, if_neg hclose, Int.add_zero, Int.toNat_natCast]
      exact ⟨fun h => ⟨Int.natCast_nonneg depth, h⟩, And.right⟩

/-- **Brackets are balanced** if no beginning of the text closes more than is open, and the
whole text closes all that is open. -/
theorem balancedFrom_iff {depth : Nat} {cs : List Char} :
    balancedFrom depth cs = true ↔
      (∀ before, before <+: cs → 0 ≤ depth + netDepth before) ∧ depth + netDepth cs = 0 := by
  induction cs generalizing depth with
  | nil =>
      have hnil : balancedFrom depth [] = true ↔ depth = 0 := by simp [balancedFrom]
      rw [hnil, netDepth_nil]
      constructor
      · rintro rfl
        refine ⟨fun before hbefore => ?_, rfl⟩
        rw [List.prefix_nil.1 hbefore, netDepth_nil]
        exact Int.le_refl 0
      · rintro ⟨-, htotal⟩
        omega
  | cons c cs ih =>
      rw [balancedFrom_cons, ih, netDepth_cons]
      constructor
      · rintro ⟨hstep, hbefore, htotal⟩
        rw [Int.toNat_of_nonneg hstep] at hbefore htotal
        refine ⟨fun before hbegin => ?_, by omega⟩
        rcases List.prefix_cons_iff.1 hbegin with rfl | ⟨b, rfl, hb⟩
        · rw [netDepth_nil]
          omega
        · have := hbefore b hb
          rw [netDepth_cons]
          omega
      · rintro ⟨hbefore, htotal⟩
        have hcons : ∀ b, b <+: cs → 0 ≤ depth + bracketStep c + netDepth b := by
          intro b hb
          have := hbefore (c :: b) (List.cons_prefix_cons.2 ⟨rfl, hb⟩)
          rw [netDepth_cons] at this
          omega
        have hstep : 0 ≤ depth + bracketStep c := by
          have := hcons [] List.nil_prefix
          rwa [netDepth_nil, Int.add_zero] at this
        rw [Int.toNat_of_nonneg hstep]
        exact ⟨hstep, hcons, by omega⟩

theorem netDepth_of_balanced {cs : List Char} (h : balanced cs = true) : netDepth cs = 0 := by
  have htotal := (balancedFrom_iff.1 h).2
  omega

theorem netDepth_nonneg_of_prefix {cs before : List Char} (h : balanced cs = true)
    (hbegin : before <+: cs) : 0 ≤ netDepth before := by
  have hbefore := (balancedFrom_iff.1 h).1 before hbegin
  omega

/-- **At the last closing bracket of a balanced text everything is closed**, and nothing is
opened behind it. -/
theorem netDepth_of_last_close {front behind : List Char}
    (h : balanced (front ++ '>' :: behind) = true) (hclose : '>' ∉ behind) :
    netDepth (front ++ ['>']) = 0 ∧ '<' ∉ behind := by
  have hbegin : front ++ ['>'] <+: front ++ '>' :: behind :=
    ⟨behind, by rw [List.append_assoc, List.singleton_append]⟩
  have hfront := netDepth_nonneg_of_prefix h hbegin
  have htotal := netDepth_of_balanced h
  have hbehind : netDepth behind = (behind.count '<' : Int) := by
    rw [netDepth, List.count_eq_zero.2 hclose]
    omega
  rw [← List.singleton_append, ← List.append_assoc, netDepth_append, hbehind] at htotal
  exact ⟨by omega, List.count_eq_zero.1 (by omega)⟩

/-- Behind a balanced text as many brackets are open as before it. -/
theorem balancedFrom_append {depth : Nat} {cs : List Char} (h : balancedFrom depth cs = true)
    (more : Nat) (rest : List Char) :
    balancedFrom (depth + more) (cs ++ rest) = balancedFrom more rest := by
  induction cs generalizing depth with
  | nil =>
      have hdepth : depth = 0 := by simpa [balancedFrom] using h
      rw [hdepth, Nat.zero_add, List.nil_append]
  | cons c cs ih =>
      obtain ⟨hstep, hcs⟩ := (balancedFrom_cons depth c cs).1 h
      have hdepth : (((depth + more : Nat) : Int) + bracketStep c).toNat =
          ((depth : Int) + bracketStep c).toNat + more := by omega
      rw [List.cons_append, Bool.eq_iff_iff, balancedFrom_cons, hdepth, ih hcs]
      exact ⟨And.right, fun hrest => ⟨by omega, hrest⟩⟩

/-- A balanced text within another may be left out. -/
theorem balancedFrom_balanced_append {cs : List Char} (h : balanced cs = true) (depth : Nat)
    (rest : List Char) : balancedFrom depth (cs ++ rest) = balancedFrom depth rest := by
  have happend := balancedFrom_append h depth rest
  rwa [Nat.zero_add] at happend

theorem balanced_of_notMem {cs : List Char} (hopen : '<' ∉ cs) (hclose : '>' ∉ cs) :
    balanced cs = true := by
  refine balancedFrom_iff.2 ⟨fun before hbefore => ?_, ?_⟩
  · rw [netDepth_of_notMem (fun h => hopen (hbefore.subset h)) fun h => hclose (hbefore.subset h)]
    exact Int.le_refl 0
  · rw [netDepth_of_notMem hopen hclose]
    rfl

/-- A text in brackets, behind one without. -/
theorem balanced_brackets {cs inner : List Char} (hopen : '<' ∉ cs) (hclose : '>' ∉ cs)
    (h : balanced inner = true) : balanced (cs ++ '<' :: (inner ++ ['>'])) = true := by
  have hstep : balancedFrom 0 ('<' :: (inner ++ ['>'])) = balancedFrom 1 (inner ++ ['>']) := by
    simp [balancedFrom]
  rw [balanced, balancedFrom_balanced_append (balanced_of_notMem hopen hclose), hstep,
    balancedFrom_balanced_append h]
  rfl

theorem balancedFrom_cons_of_isBlank {c : Char} (h : isBlank c = true) (depth : Nat)
    (cs : List Char) : balancedFrom depth (c :: cs) = balancedFrom depth cs := by
  rw [Bool.eq_iff_iff, balancedFrom_cons, bracketStep_of_isBlank h, Int.add_zero,
    Int.toNat_natCast]
  exact ⟨And.right, fun hcs => ⟨Int.natCast_nonneg depth, hcs⟩⟩

theorem balanced_withoutBlanks (cs : List Char) : balanced (withoutBlanks cs) = balanced cs := by
  have hdepth : ∀ depth, balancedFrom depth (withoutBlanks cs) = balancedFrom depth cs := by
    induction cs with
    | nil => exact fun _ => rfl
    | cons c cs ih =>
        intro depth
        cases hblank : isBlank c with
        | true =>
            rw [withoutBlanks, List.filter_cons_of_neg (by simp [hblank]), ← withoutBlanks, ih,
              balancedFrom_cons_of_isBlank hblank]
        | false =>
            rw [withoutBlanks, List.filter_cons_of_pos (by simp [hblank]), ← withoutBlanks,
              Bool.eq_iff_iff, balancedFrom_cons, balancedFrom_cons, ih]
  exact hdepth 0

/-! ## Commas outside all brackets -/

/-- When `depth` brackets are open before the text, no comma of it stands outside all
brackets. -/
def NoOuterCommaFrom (depth : Int) (cs : List Char) : Prop :=
  ∀ before after, cs = before ++ ',' :: after → depth + netDepth before ≠ 0

/-- No comma stands where as many brackets have been closed as opened. -/
abbrev NoOuterComma (cs : List Char) : Prop :=
  NoOuterCommaFrom 0 cs

theorem noOuterCommaFrom_nil (depth : Int) : NoOuterCommaFrom depth [] :=
  fun _ _ h => absurd h (by simp)

theorem noOuterCommaFrom_cons {depth : Int} {c : Char} {cs : List Char} :
    NoOuterCommaFrom depth (c :: cs) ↔
      ¬(c = ',' ∧ depth = 0) ∧ NoOuterCommaFrom (depth + bracketStep c) cs := by
  constructor
  · intro h
    refine ⟨fun ⟨hc, hdepth⟩ => h [] cs (by rw [hc, List.nil_append]) (by simp [hdepth]), ?_⟩
    rintro before after rfl
    have := h (c :: before) after rfl
    rwa [netDepth_cons, ← Int.add_assoc] at this
  · rintro ⟨hc, hcs⟩ before after heq
    cases before with
    | nil =>
        rw [netDepth_nil, Int.add_zero]
        exact fun hdepth => hc ⟨(List.cons.inj heq).1, hdepth⟩
    | cons b before =>
        obtain ⟨rfl, rfl⟩ := List.cons.inj heq
        rw [netDepth_cons, ← Int.add_assoc]
        exact hcs before after rfl

theorem noOuterCommaFrom_append {depth : Int} {cs ds : List Char} :
    NoOuterCommaFrom depth (cs ++ ds) ↔
      NoOuterCommaFrom depth cs ∧ NoOuterCommaFrom (depth + netDepth cs) ds := by
  induction cs generalizing depth with
  | nil =>
      rw [List.nil_append, netDepth_nil, Int.add_zero]
      exact ⟨fun h => ⟨noOuterCommaFrom_nil depth, h⟩, And.right⟩
  | cons c cs ih =>
      rw [List.cons_append, noOuterCommaFrom_cons, noOuterCommaFrom_cons, ih, netDepth_cons,
        ← Int.add_assoc, and_assoc]

theorem NoOuterComma.of_prefix {cs before : List Char} (h : NoOuterComma cs)
    (hbegin : before <+: cs) : NoOuterComma before := by
  obtain ⟨rest, rfl⟩ := hbegin
  exact (noOuterCommaFrom_append.1 h).1

/-- Where there are no brackets, every comma is an outer one. -/
theorem NoOuterComma.notMem {cs : List Char} (h : NoOuterComma cs) (hopen : '<' ∉ cs)
    (hclose : '>' ∉ cs) : ',' ∉ cs := by
  intro hcomma
  obtain ⟨before, after, rfl⟩ := List.append_of_mem hcomma
  refine h before after rfl ?_
  rw [netDepth_of_notMem (fun hmem => hopen (List.mem_append_left _ hmem))
    fun hmem => hclose (List.mem_append_left _ hmem)]
  rfl

theorem noOuterCommaFrom_of_notMem (depth : Int) {cs : List Char} (h : ',' ∉ cs) :
    NoOuterCommaFrom depth cs := by
  rintro before after rfl
  exact absurd (List.mem_append_right _ List.mem_cons_self) h

/-- Within brackets, no comma of a balanced text is an outer one. -/
theorem noOuterCommaFrom_of_balanced {depth : Int} (hdepth : 0 < depth) {cs : List Char}
    (h : balanced cs = true) : NoOuterCommaFrom depth cs := by
  rintro before after rfl
  have hbefore := netDepth_nonneg_of_prefix h (List.prefix_append before (',' :: after))
  omega

theorem noOuterComma_brackets {cs inner : List Char} (hopen : '<' ∉ cs) (hclose : '>' ∉ cs)
    (hcomma : ',' ∉ cs) (h : balanced inner = true) :
    NoOuterComma (cs ++ '<' :: (inner ++ ['>'])) := by
  refine noOuterCommaFrom_append.2 ⟨noOuterCommaFrom_of_notMem 0 hcomma, ?_⟩
  rw [netDepth_of_notMem hopen hclose]
  refine noOuterCommaFrom_cons.2 ⟨by simp, noOuterCommaFrom_append.2 ⟨?_, ?_⟩⟩
  · exact noOuterCommaFrom_of_balanced (by decide) h
  · exact noOuterCommaFrom_of_notMem _ (by decide)

/-! ## Cutting at the outer commas -/

theorem splitArgumentsFrom_ne_nil (depth : Int) (cs : List Char) :
    splitArgumentsFrom depth cs ≠ [] := by
  induction cs generalizing depth with
  | nil => simp [splitArgumentsFrom]
  | cons c cs ih =>
      rw [splitArgumentsFrom]
      split
      · simp
      · split
        · exact ih depth
        · split <;> simp

/-- There is always a first piece. -/
theorem exists_splitArgumentsFrom (depth : Int) (cs : List Char) :
    ∃ piece rest, splitArgumentsFrom depth cs = piece :: rest :=
  List.exists_cons_of_ne_nil (splitArgumentsFrom_ne_nil depth cs)

/-- The next character of a piece. -/
theorem splitArgumentsFrom_cons {depth : Int} {c : Char} {cs piece : List Char}
    {rest : List (List Char)} (hcomma : ¬(c = ',' ∧ depth = 0))
    (h : splitArgumentsFrom (depth + bracketStep c) cs = piece :: rest) :
    splitArgumentsFrom depth (c :: cs) = (withoutBlanks [c] ++ piece) :: rest := by
  rw [splitArgumentsFrom, if_neg hcomma]
  cases hblank : isBlank c with
  | true =>
      rw [bracketStep_of_isBlank hblank, Int.add_zero] at h
      rw [if_pos rfl, h]
      simp [withoutBlanks, hblank]
  | false =>
      rw [if_neg (by decide), h]
      simp [withoutBlanks, hblank]

/-- **A text without an outer comma goes into one piece**, less its blanks. -/
theorem splitArgumentsFrom_append {depth : Int} {cs : List Char} (h : NoOuterCommaFrom depth cs)
    {tail piece : List Char} {rest : List (List Char)}
    (htail : splitArgumentsFrom (depth + netDepth cs) tail = piece :: rest) :
    splitArgumentsFrom depth (cs ++ tail) = (withoutBlanks cs ++ piece) :: rest := by
  induction cs generalizing depth with
  | nil =>
      rw [netDepth_nil, Int.add_zero] at htail
      rw [List.nil_append, htail]
      rfl
  | cons c cs ih =>
      obtain ⟨hcomma, hcs⟩ := noOuterCommaFrom_cons.1 h
      rw [netDepth_cons, ← Int.add_assoc] at htail
      rw [List.cons_append, splitArgumentsFrom_cons hcomma (ih hcs htail), ← List.append_assoc,
        ← withoutBlanks_append, List.singleton_append]

/-- **No piece has a blank or an outer comma.** -/
theorem pieces_of_splitArgumentsFrom {depth : Int} {cs piece : List Char}
    {rest : List (List Char)} (h : splitArgumentsFrom depth cs = piece :: rest) :
    NoOuterCommaFrom depth piece ∧ (∀ p ∈ rest, NoOuterComma p) ∧
      ∀ p ∈ piece :: rest, ∀ c ∈ p, isBlank c = false := by
  induction cs generalizing depth piece rest with
  | nil =>
      obtain ⟨rfl, rfl⟩ := List.cons.inj h
      exact ⟨noOuterCommaFrom_nil depth, by simp, by simp⟩
  | cons c cs ih =>
      by_cases hcomma : c = ',' ∧ depth = 0
      · obtain ⟨first, others, hsplit⟩ := exists_splitArgumentsFrom depth cs
        rw [splitArgumentsFrom, if_pos hcomma, hsplit] at h
        obtain ⟨rfl, rfl⟩ := List.cons.inj h
        obtain ⟨hfirst, hothers, hblank⟩ := ih hsplit
        rw [hcomma.2] at hfirst
        exact ⟨noOuterCommaFrom_nil depth, List.forall_mem_cons.2 ⟨hfirst, hothers⟩,
          List.forall_mem_cons.2 ⟨by simp, hblank⟩⟩
      · obtain ⟨first, others, hsplit⟩ := exists_splitArgumentsFrom (depth + bracketStep c) cs
        rw [splitArgumentsFrom_cons hcomma hsplit] at h
        obtain ⟨rfl, rfl⟩ := List.cons.inj h
        obtain ⟨hfirst, hothers, hblank⟩ := ih hsplit
        rw [List.forall_mem_cons] at hblank
        cases hc : isBlank c with
        | true =>
            have hnone : withoutBlanks [c] = [] := by simp [withoutBlanks, hc]
            rw [bracketStep_of_isBlank hc, Int.add_zero] at hfirst
            rw [hnone, List.nil_append]
            exact ⟨hfirst, hothers, List.forall_mem_cons.2 hblank⟩
        | false =>
            have hone : withoutBlanks [c] = [c] := by simp [withoutBlanks, hc]
            rw [hone, List.singleton_append]
            exact ⟨noOuterCommaFrom_cons.2 ⟨hcomma, hfirst⟩, hothers,
              List.forall_mem_cons.2 ⟨List.forall_mem_cons.2 ⟨hc, hblank.1⟩, hblank.2⟩⟩

/-- **The pieces, with a comma between two of them, are the text** less its blanks. -/
theorem intercalate_splitArguments (cs : List Char) :
    [','].intercalate (splitArguments cs) = withoutBlanks cs := by
  have hdepth : ∀ depth, [','].intercalate (splitArgumentsFrom depth cs) = withoutBlanks cs := by
    induction cs with
    | nil => exact fun _ => rfl
    | cons c cs ih =>
        intro depth
        have hcons : withoutBlanks (c :: cs) = withoutBlanks [c] ++ withoutBlanks cs :=
          withoutBlanks_append [c] cs
        rw [hcons]
        by_cases hcomma : c = ',' ∧ depth = 0
        · obtain ⟨rfl, rfl⟩ := hcomma
          rw [splitArgumentsFrom, if_pos ⟨rfl, rfl⟩,
            List.intercalate_cons_of_ne_nil (splitArgumentsFrom_ne_nil 0 cs), ih]
          rfl
        · obtain ⟨piece, rest, hsplit⟩ := exists_splitArgumentsFrom (depth + bracketStep c) cs
          rw [← ih (depth + bracketStep c), splitArgumentsFrom_cons hcomma hsplit, hsplit]
          cases rest with
          | nil => rw [List.intercalate_singleton, List.intercalate_singleton]
          | cons next rest =>
              rw [List.intercalate_cons_cons, List.intercalate_cons_cons, List.append_assoc,
                List.append_assoc, List.append_assoc]
  exact hdepth 0

/-- What a text is after it has been cut out between outer commas. -/
structure IsPiece (cs : List Char) : Prop where
  no_blank : ∀ c ∈ cs, isBlank c = false
  no_outer_comma : NoOuterComma cs

theorem IsPiece.of_prefix {cs before : List Char} (h : IsPiece cs) (hbegin : before <+: cs) :
    IsPiece before :=
  ⟨fun c hc => h.no_blank c (hbegin.subset hc), h.no_outer_comma.of_prefix hbegin⟩

theorem isPiece_of_mem_splitArguments {cs piece : List Char} (h : piece ∈ splitArguments cs) :
    IsPiece piece := by
  obtain ⟨first, others, hsplit⟩ := exists_splitArgumentsFrom 0 cs
  obtain ⟨hfirst, hothers, hblank⟩ := pieces_of_splitArgumentsFrom hsplit
  rw [splitArguments, hsplit] at h
  exact ⟨hblank piece h, List.forall_mem_cons.2 ⟨hfirst, hothers⟩ piece h⟩

/-- Blanks do not matter for the cut. -/
theorem splitArguments_withoutBlanks (cs : List Char) :
    splitArguments (withoutBlanks cs) = splitArguments cs := by
  have hdepth : ∀ depth, splitArgumentsFrom depth (withoutBlanks cs) =
      splitArgumentsFrom depth cs := by
    induction cs with
    | nil => exact fun _ => rfl
    | cons c cs ih =>
        intro depth
        cases hc : isBlank c with
        | true =>
            have hcomma : ¬(c = ',' ∧ depth = 0) := by
              rintro ⟨rfl, -⟩
              exact absurd hc (by decide)
            rw [withoutBlanks, List.filter_cons_of_neg (by simp [hc]), ← withoutBlanks, ih,
              splitArgumentsFrom, if_neg hcomma, if_pos hc]
        | false =>
            rw [withoutBlanks, List.filter_cons_of_pos (by simp [hc]), ← withoutBlanks,
              splitArgumentsFrom, splitArgumentsFrom]
            simp only [ih]
  exact hdepth 0

/-- One argument alone. -/
theorem splitArguments_singleton {cs : List Char} (h : NoOuterComma cs) :
    splitArguments cs = [withoutBlanks cs] := by
  have htail : splitArgumentsFrom (0 + netDepth cs) [] = [] :: [] := rfl
  have happend := splitArgumentsFrom_append h htail
  rwa [List.append_nil, List.append_nil] at happend

/-- An argument, a comma with a blank behind it, and more arguments. -/
theorem splitArguments_append_comma {cs : List Char} (hcomma : NoOuterComma cs)
    (hbalanced : balanced cs = true) (tail : List Char) :
    splitArguments (cs ++ ',' :: ' ' :: tail) = withoutBlanks cs :: splitArguments tail := by
  have htail : splitArgumentsFrom (0 + netDepth cs) (',' :: ' ' :: tail) =
      [] :: splitArgumentsFrom 0 tail := by
    rw [netDepth_of_balanced hbalanced, Int.add_zero, splitArgumentsFrom, if_pos ⟨rfl, rfl⟩,
      splitArgumentsFrom, if_neg (by simp), if_pos (by decide)]
  have happend := splitArgumentsFrom_append hcomma htail
  rwa [List.append_nil] at happend

/-- **A text is balanced if and only if its pieces are.** -/
theorem balanced_iff_forall_pieces (cs : List Char) :
    balanced cs = true ↔ ∀ piece ∈ splitArguments cs, balanced piece = true := by
  have hdepth : ∀ {depth : Nat} {piece : List Char} {rest : List (List Char)},
      splitArgumentsFrom depth cs = piece :: rest → (balancedFrom depth cs = true ↔
        balancedFrom depth piece = true ∧ ∀ p ∈ rest, balanced p = true) := by
    induction cs with
    | nil =>
        intro depth piece rest h
        obtain ⟨rfl, rfl⟩ := List.cons.inj h
        simp
    | cons c cs ih =>
        intro depth piece rest h
        by_cases hcomma : c = ',' ∧ (depth : Int) = 0
        · obtain ⟨rfl, hzero⟩ := hcomma
          obtain rfl : depth = 0 := by omega
          obtain ⟨first, others, hsplit⟩ := exists_splitArgumentsFrom 0 cs
          rw [splitArgumentsFrom, if_pos ⟨rfl, rfl⟩, Int.ofNat_zero, hsplit] at h
          obtain ⟨rfl, rfl⟩ := List.cons.inj h
          rw [balancedFrom_cons, List.forall_mem_cons, balanced, ← ih hsplit]
          simp [bracketStep, balancedFrom]
        · obtain ⟨first, others, hsplit⟩ := exists_splitArgumentsFrom (depth + bracketStep c) cs
          rw [splitArgumentsFrom_cons hcomma hsplit] at h
          obtain ⟨rfl, rfl⟩ := List.cons.inj h
          have hblanks : balancedFrom depth (withoutBlanks [c] ++ first) =
              balancedFrom depth (c :: first) := by
            cases hc : isBlank c with
            | true =>
                have hnone : withoutBlanks [c] = [] := by simp [withoutBlanks, hc]
                rw [hnone, List.nil_append, balancedFrom_cons_of_isBlank hc]
            | false =>
                have hone : withoutBlanks [c] = [c] := by simp [withoutBlanks, hc]
                rw [hone, List.singleton_append]
          rw [hblanks, balancedFrom_cons, balancedFrom_cons, and_assoc]
          refine and_congr_right fun hstep => ih ?_
          rwa [Int.toNat_of_nonneg hstep]
  obtain ⟨first, others, hsplit⟩ := exists_splitArgumentsFrom 0 cs
  rw [splitArguments, hsplit, List.forall_mem_cons]
  exact hdepth hsplit

end JavaType
end ResourceStubs
