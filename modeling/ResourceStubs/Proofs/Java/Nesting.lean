import Mathlib.Data.List.Basic
import ResourceStubs.Proofs.Java.SourceLines
import ResourceStubs.Proofs.List.ExceptSteps
import ResourceStubs.Proofs.Text.Pieces

/-!
# Blocks and indentation of source text

Source text is written by a counter of the depth, which goes up where a block is opened and
down where one is closed.  Who reads the text has no counter, but there are braces to count.
`WellNested` says of a source file what is seen then: no more is closed than was opened, all
is closed in the end, and each line is indented by two blanks for every block that is open
at it.

The counter and the braces agree as long as every line is a statement, which closes what it
opens (`IsStatement`), and every header is free of braces and line breaks (`IsFlatLine`).
`NestedAt` is what the steps of writing keep.

* `NestedAt.append`: what it takes to put one more line at the end.  The steps `NestedAt.line`,
  `NestedAt.blank`, `NestedAt.openBlock` and `NestedAt.closeBlock` are its four cases.
* `CompilationUnit.wellNested_of_nestedAt`: text whose blocks are all closed makes a well
  nested file, whatever package it stands in.
-/

namespace ResourceStubs
namespace Java

open Text

/-! ## Open blocks -/

/-- How many more blocks the text opens than it closes. -/
def openBlocks (cs : List Char) : Int :=
  (cs.count '\x7b' : Int) - cs.count '\x7d'

@[simp] theorem openBlocks_nil : openBlocks [] = 0 := rfl

@[simp] theorem openBlocks_append (cs ds : List Char) :
    openBlocks (cs ++ ds) = openBlocks cs + openBlocks ds := by
  rw [openBlocks, openBlocks, openBlocks, List.count_append, List.count_append]
  omega

/-- When `depth` blocks are open before the text, does it close only what is open? -/
def ClosesOnlyOpen (depth : Int) (cs : List Char) : Prop :=
  ∀ before, before <+: cs → 0 ≤ depth + openBlocks before

theorem closesOnlyOpen_nil {depth : Int} (h : 0 ≤ depth) : ClosesOnlyOpen depth [] := by
  intro before hbefore
  rw [List.prefix_nil.1 hbefore, openBlocks_nil]
  omega

/-- Two texts are read one after the other. -/
theorem ClosesOnlyOpen.append {depth : Int} {cs ds : List Char} (hcs : ClosesOnlyOpen depth cs)
    (hds : ClosesOnlyOpen (depth + openBlocks cs) ds) : ClosesOnlyOpen depth (cs ++ ds) := by
  rintro before ⟨after, h⟩
  rcases List.append_eq_append_iff.1 h with ⟨rest, hbefore, -⟩ | ⟨more, rfl, hmore⟩
  · exact hcs before ⟨rest, hbefore.symm⟩
  · have := hds more ⟨after, hmore.symm⟩
    rw [openBlocks_append]
    omega

theorem openBlocks_of_notMem {cs : List Char} (hopen : '\x7b' ∉ cs) (hclose : '\x7d' ∉ cs) :
    openBlocks cs = 0 := by
  rw [openBlocks, List.count_eq_zero.2 hopen, List.count_eq_zero.2 hclose]
  rfl

/-- A text without the end of a block closes nothing. -/
theorem closesOnlyOpen_of_notMem {depth : Int} (hdepth : 0 ≤ depth) {cs : List Char}
    (h : '\x7d' ∉ cs) : ClosesOnlyOpen depth cs := by
  intro before hbefore
  rw [openBlocks, List.count_eq_zero.2 fun hmem => h (hbefore.subset hmem)]
  omega

/-- The end of a block closes a block that is open. -/
theorem closesOnlyOpen_close {depth : Int} (hdepth : 1 ≤ depth) :
    ClosesOnlyOpen depth ['\x7d'] := by
  intro before hbefore
  have hcount : before.count '\x7d' ≤ ['\x7d'].count '\x7d' := hbefore.sublist.count_le '\x7d'
  have hone : ['\x7d'].count '\x7d' = 1 := rfl
  rw [openBlocks]
  omega

/-- The characters that make blocks and lines. -/
def structuralChars : List Char := ['\x7b', '\x7d', '\n']

/-- Has a text neither braces nor line breaks? -/
def IsFlat (text : String) : Prop := ∀ c ∈ text.toList, c ∉ structuralChars

-- character by character of the text: there are finitely many characters, but far too many
instance (text : String) : Decidable (IsFlat text) :=
  List.decidableBAll (fun c => c ∉ structuralChars) text.toList

theorem isFlat_append {s t : String} : IsFlat (s ++ t) ↔ IsFlat s ∧ IsFlat t := by
  rw [IsFlat, String.toList_append, List.forall_mem_append]
  rfl

namespace IsFlat

variable {text : String}

theorem notMem_close (h : IsFlat text) : '\x7d' ∉ text.toList :=
  fun hmem => h _ hmem (by decide)

theorem notMem_newline (h : IsFlat text) : '\n' ∉ text.toList :=
  fun hmem => h _ hmem (by decide)

theorem openBlocks_eq (h : IsFlat text) : openBlocks text.toList = 0 :=
  openBlocks_of_notMem (fun hmem => h _ hmem (by decide)) h.notMem_close

end IsFlat

/-! ## Lines -/

/-- The number of blanks in front of a line. -/
def indentOf (line : List Char) : Nat :=
  (line.takeWhile (· == ' ')).length

/-- Does a line begin with the end of a block? -/
def closesFirst (line : List Char) : Bool :=
  (line.dropWhile (· == ' ')).head? == some '\x7d'

/-- Is a line indented by two blanks for each block that is open at it?  `blocks` are open in
front of the line; one that the line begins by closing is no longer open at it. -/
def IsIndented (blocks : Int) (line : List Char) : Prop :=
  (indentOf line : Int) = 2 * if closesFirst line then blocks - 1 else blocks

/-- A text within a line that closes what it opens, and nothing else. -/
structure IsClosed (text : String) : Prop where
  oneLine : '\n' ∉ text.toList
  closesOnlyOpen : ClosesOnlyOpen 0 text.toList
  closesAll : openBlocks text.toList = 0

theorem IsFlat.isClosed {text : String} (h : IsFlat text) : IsClosed text where
  oneLine := h.notMem_newline
  closesOnlyOpen := closesOnlyOpen_of_notMem (Int.le_refl 0) h.notMem_close
  closesAll := h.openBlocks_eq

theorem IsClosed.append {s t : String} (hs : IsClosed s) (ht : IsClosed t) :
    IsClosed (s ++ t) where
  oneLine := by
    rw [String.toList_append, List.mem_append, not_or]
    exact ⟨hs.oneLine, ht.oneLine⟩
  closesOnlyOpen := by
    rw [String.toList_append]
    refine hs.closesOnlyOpen.append ?_
    rw [hs.closesAll]
    exact ht.closesOnlyOpen
  closesAll := by
    rw [String.toList_append, openBlocks_append, hs.closesAll, ht.closesAll]
    rfl

/-- A text in braces. -/
theorem isClosed_braces {inner : String} (h : IsFlat inner) :
    IsClosed ("\x7b" ++ inner ++ "\x7d") where
  oneLine := by
    simp only [String.toList_append, List.mem_append, not_or]
    exact ⟨⟨by decide, h.notMem_newline⟩, by decide⟩
  closesOnlyOpen := by
    have hopen : openBlocks "\x7b".toList = 1 := by decide
    rw [String.toList_append, String.toList_append]
    refine ((closesOnlyOpen_of_notMem (Int.le_refl 0) (by decide)).append
      (closesOnlyOpen_of_notMem (by rw [hopen]; decide) h.notMem_close)).append ?_
    rw [openBlocks_append, hopen, h.openBlocks_eq]
    exact closesOnlyOpen_close (by decide)
  closesAll := by
    have hbraces : openBlocks "\x7b".toList + 0 + openBlocks "\x7d".toList = 0 := by decide
    rw [String.toList_append, String.toList_append, openBlocks_append, openBlocks_append,
      h.openBlocks_eq, hbraces]

/-- Does a text begin with something else than a blank or the end of a block? -/
def beginsStatement (text : String) : Bool :=
  match text.toList with
  | c :: _ => c ≠ ' ' && c ≠ '\x7d'
  | [] => false

theorem beginsStatement_append {s t : String} (h : beginsStatement s = true) :
    beginsStatement (s ++ t) = true := by
  rw [beginsStatement] at h ⊢
  rw [String.toList_append]
  cases hs : s.toList with
  | nil => rw [hs] at h; exact absurd h (by decide)
  | cons c cs => rwa [hs] at h

theorem exists_of_beginsStatement {text : String} (h : beginsStatement text = true) :
    ∃ c cs, text.toList = c :: cs ∧ c ≠ ' ' ∧ c ≠ '\x7d' := by
  rw [beginsStatement] at h
  cases htext : text.toList with
  | nil => rw [htext] at h; exact absurd h (by decide)
  | cons c cs =>
      rw [htext] at h
      simp only [Bool.and_eq_true, decide_eq_true_eq] at h
      exact ⟨c, cs, rfl, h⟩

/-- A text that can stand on a line of its own. -/
structure IsStatement (text : String) : Prop extends IsClosed text where
  begins : beginsStatement text = true

theorem IsStatement.append {s t : String} (hs : IsStatement s) (ht : IsClosed t) :
    IsStatement (s ++ t) :=
  ⟨hs.toIsClosed.append ht, beginsStatement_append hs.begins⟩

/-- A text that can stand on a line of its own, or in front of the brace of a block. -/
structure IsFlatLine (text : String) : Prop where
  flat : IsFlat text
  begins : beginsStatement text = true

instance (text : String) : Decidable (IsFlatLine text) :=
  decidable_of_iff (IsFlat text ∧ beginsStatement text = true)
    ⟨fun h => ⟨h.1, h.2⟩, fun h => ⟨h.flat, h.begins⟩⟩

theorem IsFlatLine.append {s t : String} (hs : IsFlatLine s) (ht : IsFlat t) :
    IsFlatLine (s ++ t) :=
  ⟨isFlat_append.2 ⟨hs.flat, ht⟩, beginsStatement_append hs.begins⟩

theorem IsFlatLine.isStatement {text : String} (h : IsFlatLine text) : IsStatement text :=
  ⟨h.flat.isClosed, h.begins⟩

section Indentation

variable {depth : Nat} {c : Char} {cs : List Char}

theorem toList_indentation (depth : Nat) :
    (SourceText.indentation depth).toList = List.replicate (2 * depth) ' ' :=
  String.toList_ofList

theorem isFlat_indentation (depth : Nat) : IsFlat (SourceText.indentation depth) := by
  intro c hc
  rw [toList_indentation] at hc
  rw [List.eq_of_mem_replicate hc]
  decide

theorem indentOf_replicate_append (hc : c ≠ ' ') :
    indentOf (List.replicate (2 * depth) ' ' ++ c :: cs) = 2 * depth := by
  rw [indentOf, List.takeWhile_append_of_pos (by simp), List.takeWhile_cons_of_neg (by simpa),
    List.append_nil, List.length_replicate]

theorem closesFirst_replicate_append (hc : c ≠ ' ') :
    closesFirst (List.replicate (2 * depth) ' ' ++ c :: cs) = (c == '\x7d') := by
  rw [closesFirst, List.dropWhile_append_of_pos (by simp), List.dropWhile_cons_of_neg (by simpa),
    List.head?_cons]
  rfl

/-- A statement is indented as the depth says. -/
theorem isIndented_replicate_append (hc : c ≠ ' ') (hclose : c ≠ '\x7d') :
    IsIndented depth (List.replicate (2 * depth) ' ' ++ c :: cs) := by
  rw [IsIndented, indentOf_replicate_append hc, closesFirst_replicate_append hc,
    beq_false_of_ne hclose, if_neg Bool.false_ne_true]
  omega

/-- The end of a block is indented one step less. -/
theorem isIndented_close :
    IsIndented (depth + 1 : Nat) (List.replicate (2 * depth) ' ' ++ ['\x7d']) := by
  rw [IsIndented, indentOf_replicate_append (by decide), closesFirst_replicate_append (by decide),
    beq_self_eq_true, if_pos rfl]
  omega

end Indentation

/-! ## Lines one after the other -/

/-- The text of lines, each with a line break behind it. -/
def textOfLines (lines : List (List Char)) : List Char :=
  lines.flatMap fun line => line ++ ['\n']

theorem textOfLines_cons (line : List Char) (lines : List (List Char)) :
    textOfLines (line :: lines) = line ++ '\n' :: textOfLines lines := by
  rw [textOfLines, List.flatMap_cons, List.append_assoc]
  rfl

theorem textOfLines_concat (lines : List (List Char)) (line : List Char) :
    textOfLines (lines ++ [line]) = textOfLines lines ++ (line ++ ['\n']) := by
  rw [textOfLines, List.flatMap_append, List.flatMap_singleton]
  rfl

/-- The text of lines is cut into the lines, and nothing stands behind the last of them. -/
theorem pieces_textOfLines {lines : List (List Char)} (h : ∀ line ∈ lines, '\n' ∉ line) :
    pieces '\n' (textOfLines lines) = lines ++ [[]] := by
  induction lines with
  | nil => rfl
  | cons line lines ih =>
      obtain ⟨hline, hlines⟩ := List.forall_mem_cons.1 h
      rw [textOfLines_cons, pieces_append_cons hline, ih hlines, List.cons_append]

theorem openBlocks_textOfLines (lines : List (List Char)) :
    openBlocks (textOfLines lines) = openBlocks lines.flatten := by
  induction lines with
  | nil => rfl
  | cons line lines ih =>
      have hbreak : openBlocks ('\n' :: textOfLines lines) = openBlocks (textOfLines lines) :=
        (openBlocks_append ['\n'] _).trans (Int.zero_add _)
      rw [textOfLines_cons, List.flatten_cons, openBlocks_append, openBlocks_append, hbreak, ih]

/-- Is every line indented by the blocks that are open at it? -/
def AllIndented (lines : List (List Char)) : Prop :=
  ∀ before line after, lines = before ++ line :: after → line ≠ [] →
    IsIndented (openBlocks before.flatten) line

theorem AllIndented.concat {lines : List (List Char)} {line : List Char} (h : AllIndented lines)
    (hline : line ≠ [] → IsIndented (openBlocks lines.flatten) line) :
    AllIndented (lines ++ [line]) := by
  intro before other after heq hne
  rcases concat_eq_append_cons_iff.1 heq with ⟨-, rfl, rfl⟩ | ⟨rest, -, hrest⟩
  · exact hline hne
  · exact h before other rest hrest hne

/-! ## What every step of writing keeps -/

namespace SourceText

variable {s : SourceText} {depth : Nat}

/-- What is known of source text: it has whole lines, they are indented as they should be,
and as many blocks are open behind them as the depth says. -/
structure Written (s : SourceText) (lines : List (List Char)) : Prop where
  content : s.content.toList = textOfLines lines
  oneLine : ∀ line ∈ lines, '\n' ∉ line
  closesOnlyOpen : ClosesOnlyOpen 0 s.content.toList
  blocks : openBlocks s.content.toList = s.depth
  indented : AllIndented lines

/-- Is source text well nested so far, with this many blocks open behind it? -/
def NestedAt (depth : Nat) (s : SourceText) : Prop :=
  s.depth = depth ∧ ∃ lines, s.Written lines

/-- **One more line.**  It closes only what is open, and is indented as the depth says. -/
theorem NestedAt.append (h : NestedAt depth s) {line : String} {behind : Nat}
    (honeLine : '\n' ∉ line.toList) (hcloses : ClosesOnlyOpen depth line.toList)
    (hbehind : depth + openBlocks line.toList = behind)
    (hindented : line.toList ≠ [] → IsIndented depth line.toList) :
    NestedAt behind ⟨s.content ++ (line ++ "\n"), behind⟩ := by
  obtain ⟨rfl, lines, h⟩ := h
  have hcontent : (s.content ++ (line ++ "\n")).toList =
      s.content.toList ++ (line.toList ++ ['\n']) := by
    rw [String.toList_append, String.toList_append]
    rfl
  have hbreak : openBlocks ['\n'] = 0 := rfl
  refine ⟨rfl, lines ++ [line.toList], ?_, ?_, ?_, ?_, ?_⟩
  · rw [hcontent, h.content, textOfLines_concat]
  · exact List.forall_mem_append.2 ⟨h.oneLine, List.forall_mem_singleton.2 honeLine⟩
  · rw [hcontent]
    refine h.closesOnlyOpen.append ?_
    rw [h.blocks, Int.zero_add]
    exact hcloses.append (closesOnlyOpen_of_notMem (by omega) (by decide))
  · rw [hcontent, openBlocks_append, openBlocks_append, h.blocks, hbreak, Int.add_zero, hbehind]
  · refine h.indented.concat fun hne => ?_
    rw [← openBlocks_textOfLines, ← h.content, h.blocks]
    exact hindented hne

/-- One more line that is not empty, with the blanks in front of it. -/
theorem NestedAt.lineText (h : NestedAt depth s) {text : String} {indent behind : Nat}
    (hne : text.isEmpty = false) (honeLine : '\n' ∉ text.toList)
    (hcloses : ClosesOnlyOpen depth text.toList)
    (hbehind : depth + openBlocks text.toList = behind)
    (hindented : IsIndented depth (List.replicate (2 * indent) ' ' ++ text.toList)) :
    NestedAt behind ⟨s.content ++ lineText indent text, behind⟩ := by
  have hflat := isFlat_indentation indent
  rw [SourceText.lineText, hne]
  refine h.append ?_ ?_ ?_ fun _ => ?_
  · rw [String.toList_append, List.mem_append, not_or]
    exact ⟨hflat.notMem_newline, honeLine⟩
  · rw [String.toList_append]
    refine (closesOnlyOpen_of_notMem (Int.natCast_nonneg _) hflat.notMem_close).append ?_
    rwa [hflat.openBlocks_eq, Int.add_zero]
  · rw [String.toList_append, openBlocks_append, hflat.openBlocks_eq, Int.zero_add, hbehind]
  · rwa [String.toList_append, toList_indentation]

theorem nestedAt_start : NestedAt 0 {} :=
  ⟨rfl, [], rfl, by simp, closesOnlyOpen_nil (Int.le_refl 0), rfl,
    fun before line after h => absurd h (by simp)⟩

theorem NestedAt.blank (h : NestedAt depth s) : NestedAt depth s.blank := by
  have hflat : IsFlat "" := by decide
  have hbehind : depth + openBlocks "".toList = depth := Int.add_zero _
  have hline := h.append hflat.notMem_newline (closesOnlyOpen_nil (Int.natCast_nonneg _)) hbehind
    fun hne => absurd rfl hne
  rw [String.empty_append] at hline
  rwa [blank_eq, h.1]

/-- A line that begins as a statement does, and opens so many blocks. -/
theorem NestedAt.lineText_of_begins (h : NestedAt depth s) {text : String} {behind : Nat}
    (hbegins : beginsStatement text = true) (honeLine : '\n' ∉ text.toList)
    (hcloses : ClosesOnlyOpen 0 text.toList) (hbehind : depth + openBlocks text.toList = behind) :
    NestedAt behind ⟨s.content ++ SourceText.lineText depth text, behind⟩ := by
  obtain ⟨c, cs, htext, hc, hclose⟩ := exists_of_beginsStatement hbegins
  have hne : text.isEmpty = false := by
    rw [← Bool.not_eq_true, String.isEmpty_iff]
    rintro rfl
    exact absurd htext (by simp)
  refine h.lineText hne honeLine (fun before hbefore => ?_) hbehind ?_
  · have := hcloses before hbefore
    omega
  · rw [htext]
    exact isIndented_replicate_append hc hclose

theorem NestedAt.line (h : NestedAt depth s) {text : String} (htext : IsStatement text) :
    NestedAt depth (s.line text) := by
  rw [line_eq, h.1]
  exact h.lineText_of_begins htext.begins htext.oneLine htext.closesOnlyOpen
    (by rw [htext.closesAll, Int.add_zero])

theorem NestedAt.lines (h : NestedAt depth s) {texts : List String}
    (htexts : ∀ text ∈ texts, IsStatement text) : NestedAt depth (s.lines texts) := by
  induction texts generalizing s with
  | nil => exact h
  | cons text texts ih =>
      obtain ⟨htext, hrest⟩ := List.forall_mem_cons.1 htexts
      exact ih (h.line htext) hrest

theorem NestedAt.openBlock (h : NestedAt depth s) {header : String}
    (hheader : IsFlatLine header) : NestedAt (depth + 1) (s.openBlock header) := by
  obtain ⟨hflat, hbegins⟩ := hheader
  rw [openBlock_eq, h.1]
  refine h.lineText_of_begins (beginsStatement_append hbegins) ?_ ?_ ?_
  · rw [String.toList_append, List.mem_append, not_or]
    exact ⟨hflat.notMem_newline, by decide⟩
  · refine closesOnlyOpen_of_notMem (Int.le_refl 0) ?_
    rw [String.toList_append, List.mem_append, not_or]
    exact ⟨hflat.notMem_close, by decide⟩
  · rw [String.toList_append, openBlocks_append, hflat.openBlocks_eq]
    rfl

theorem NestedAt.closeBlock (h : NestedAt (depth + 1) s) : NestedAt depth s.closeBlock := by
  rw [closeBlock_eq, h.1, Nat.add_sub_cancel]
  have hbrace : openBlocks "\x7d".toList = -1 := by decide
  exact h.lineText rfl (by decide) (closesOnlyOpen_close (by omega)) (by omega) isIndented_close

end SourceText

/-! ## Source files -/

namespace CompilationUnit

variable {package typeName : String} {s : SourceText}

/-- The lines in front of the type declaration. -/
def headerLines (u : CompilationUnit) : List (List Char) :=
  if u.package.isEmpty then [] else [("package " ++ u.package ++ ";").toList, []]

/-- Is a source file well nested?  What is closed is open, and all is closed in the end; and
behind the package line every line that is not empty is indented by the blocks open at it. -/
structure WellNested (u : CompilationUnit) : Prop where
  closesOnlyOpen : ∀ before, before <+: u.source.toList → 0 ≤ openBlocks before
  closesAll : openBlocks u.source.toList = 0
  indented : ∀ before line after, pieces '\n' u.source.toList = before ++ line :: after →
    u.headerLines.length ≤ before.length → line ≠ [] → IsIndented (openBlocks before.flatten) line

/-- Lines in front that open and close nothing do not change how the others are indented. -/
theorem isIndented_of_append {front lines before after : List (List Char)} {line : List Char}
    (hlines : AllIndented lines) (hfront : openBlocks front.flatten = 0)
    (h : front ++ lines = before ++ line :: after) (hlength : front.length ≤ before.length)
    (hne : line ≠ []) : IsIndented (openBlocks before.flatten) line := by
  have hbegins : front <+: before :=
    List.prefix_of_prefix_length_le ⟨lines, h⟩ (List.prefix_append _ _) hlength
  obtain ⟨more, rfl⟩ := hbegins
  rw [List.append_assoc] at h
  have hindented := hlines more line after (List.append_cancel_left h) hne
  rwa [List.flatten_append, openBlocks_append, hfront, Int.zero_add]

theorem toList_source (u : CompilationUnit) :
    u.source.toList = textOfLines u.headerLines ++ u.body.toList := by
  rw [source, headerLines]
  split
  · rfl
  · have hbreaks : ";\n\n" = ";" ++ "\n\n" := rfl
    rw [hbreaks, ← String.append_assoc, String.toList_append, String.toList_append,
      textOfLines_cons, textOfLines_cons, List.append_assoc, List.append_assoc]
    rfl

theorem notMem_headerLines {u : CompilationUnit} (h : IsFlat u.package) :
    ∀ line ∈ u.headerLines, ∀ c ∈ line, c ∉ structuralChars := by
  have hflat : IsFlat ("package " ++ u.package ++ ";") :=
    isFlat_append.2 ⟨isFlat_append.2 ⟨by decide, h⟩, by decide⟩
  rw [headerLines]
  split
  · exact fun _ hline => absurd hline List.not_mem_nil
  · intro line hline
    rcases List.mem_pair.1 hline with rfl | rfl
    · exact hflat
    · exact fun _ hc => absurd hc List.not_mem_nil

/-- **Source text whose blocks are closed makes a well nested file.**  The package line is in
no block. -/
theorem wellNested_of_nestedAt (h : s.NestedAt 0) (hpackage : IsFlat package) :
    WellNested ⟨package, typeName, s.content⟩ := by
  obtain ⟨hdepth, lines, h⟩ := h
  have hheader := notMem_headerLines (u := ⟨package, typeName, s.content⟩) hpackage
  have hsource := toList_source ⟨package, typeName, s.content⟩
  generalize hfront : headerLines ⟨package, typeName, s.content⟩ = front at hheader hsource
  have hmem : ∀ c ∈ textOfLines front, c = '\n' ∨ c ∉ structuralChars := by
    intro c hc
    obtain ⟨line, hline, hc⟩ := List.mem_flatMap.1 hc
    rcases List.mem_append.1 hc with hc | hc
    · exact Or.inr (hheader line hline c hc)
    · exact Or.inl (List.mem_singleton.1 hc)
  have hopen : '\x7b' ∉ textOfLines front := fun hc => absurd (hmem _ hc) (by decide)
  have hclose : '\x7d' ∉ textOfLines front := fun hc => absurd (hmem _ hc) (by decide)
  have hblocks : openBlocks (textOfLines front) = 0 := openBlocks_of_notMem hopen hclose
  constructor
  case closesOnlyOpen =>
    have hcloses : ClosesOnlyOpen 0 (textOfLines front ++ s.content.toList) := by
      refine (closesOnlyOpen_of_notMem (Int.le_refl 0) hclose).append ?_
      rw [hblocks]
      exact h.closesOnlyOpen
    intro before hbefore
    rw [hsource] at hbefore
    have := hcloses before hbefore
    omega
  case closesAll =>
    rw [hsource, openBlocks_append, hblocks, h.blocks, hdepth]
    rfl
  case indented =>
    -- behind the last line stands nothing, which is an empty line
    have hlines : AllIndented (lines ++ [[]]) := h.indented.concat fun hne => absurd rfl hne
    have hpieces : pieces '\n' (source ⟨package, typeName, s.content⟩).toList =
        front ++ (lines ++ [[]]) := by
      have honeLine : ∀ line ∈ front ++ lines, '\n' ∉ line := List.forall_mem_append.2
        ⟨fun line hline hc => hheader line hline _ hc (by decide), h.oneLine⟩
      have htext : textOfLines front ++ textOfLines lines = textOfLines (front ++ lines) :=
        List.flatMap_append.symm
      rw [hsource, h.content, htext, pieces_textOfLines honeLine, List.append_assoc]
    intro before line after heq hlength hne
    rw [hpieces] at heq
    rw [hfront] at hlength
    rw [openBlocks_textOfLines] at hblocks
    exact isIndented_of_append hlines hblocks heq hlength hne

end CompilationUnit
end Java
end ResourceStubs
