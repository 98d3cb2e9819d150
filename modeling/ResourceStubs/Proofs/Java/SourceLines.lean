import ResourceStubs.Java.Source

/-!
# Source text as an explicit text

`SourceText` is grown line by line.  Here it is written down at once: a line with its
indentation is `lineText`, and a block with all its lines is `blockText`.

* `lines_eq`: many lines append the texts of the lines.
* `closeBlock_lines_openBlock`: a block that is opened, filled and closed appends one
  `blockText`, and the depth is what it was.
* `foldl_blank_eq`: parts with an empty line before each but the first append their texts,
  separated by an empty line.
-/

namespace ResourceStubs
namespace Java
namespace SourceText

/-- A line at a depth. -/
def lineText (depth : Nat) (text : String) : String :=
  if text.isEmpty then "\n" else indentation depth ++ text ++ "\n"

/-- A block at a depth: its header, its lines one step deeper, and its end. -/
def blockText (depth : Nat) (header : String) (texts : List String) : String :=
  lineText depth (header ++ " \x7b") ++ String.join (texts.map (lineText (depth + 1))) ++
    lineText depth "\x7d"

theorem line_eq (s : SourceText) (text : String) :
    s.line text = ⟨s.content ++ lineText s.depth text, s.depth⟩ := by
  rw [line, lineText]
  split
  · rfl
  · rw [String.append_assoc, String.append_assoc, String.append_assoc]

theorem blank_eq (s : SourceText) : s.blank = ⟨s.content ++ "\n", s.depth⟩ := rfl

theorem lines_eq (s : SourceText) (texts : List String) :
    s.lines texts = ⟨s.content ++ String.join (texts.map (lineText s.depth)), s.depth⟩ := by
  induction texts generalizing s with
  | nil =>
      rw [List.map_nil, String.join_nil, String.append_empty]
      rfl
  | cons text texts ih =>
      have hstep : s.lines (text :: texts) = (s.line text).lines texts := rfl
      rw [hstep, ih, line_eq, List.map_cons, String.join_cons, String.append_assoc]

theorem openBlock_eq (s : SourceText) (header : String) :
    s.openBlock header =
      ⟨s.content ++ lineText s.depth (header ++ " \x7b"), s.depth + 1⟩ := by
  rw [openBlock, line_eq, indent]

/-- The first block of a source is opened, and lines are written in it. -/
theorem lines_openBlock_start (header : String) (texts : List String) :
    (SourceText.openBlock {} header).lines texts =
      ⟨lineText 0 (header ++ " \x7b") ++ String.join (texts.map (lineText 1)), 1⟩ := by
  rw [lines_eq, openBlock_eq]
  show (⟨"" ++ _ ++ _, 1⟩ : SourceText) = _
  rw [String.empty_append]

theorem closeBlock_eq (s : SourceText) :
    s.closeBlock = ⟨s.content ++ lineText (s.depth - 1) "\x7d", s.depth - 1⟩ := by
  rw [closeBlock, line_eq, dedent]

/-- **A block appends one text, and leaves the depth as it was.** -/
theorem closeBlock_lines_openBlock (s : SourceText) (header : String) (texts : List String) :
    ((s.openBlock header).lines texts).closeBlock =
      ⟨s.content ++ blockText s.depth header texts, s.depth⟩ := by
  rw [closeBlock_eq, lines_eq, openBlock_eq, blockText]
  simp only [Nat.add_sub_cancel, String.append_assoc]

/-! ## Parts with an empty line between them -/

section Parts

variable {α : Type} {depth : Nat} {add : SourceText → α → SourceText} {text : α → String}

/-- **Parts with an empty line between them.**  If a part appends its text and leaves the
depth as it was, then parts that follow each other append the list of their texts. -/
theorem foldl_blank_eq
    (hadd : ∀ {s : SourceText}, s.depth = depth → ∀ a, add s a = ⟨s.content ++ text a, depth⟩)
    {s : SourceText} (hs : s.depth = depth) (first : α) (rest : List α) :
    rest.foldl (fun s a => add s.blank a) (add s first) =
      ⟨s.content ++ "\n".intercalate ((first :: rest).map text), depth⟩ := by
  induction rest generalizing s first with
  | nil =>
      rw [List.foldl_nil, hadd hs, List.map_cons, List.map_nil, String.intercalate_singleton]
  | cons next rest ih =>
      have hblank : (add s first).blank = ⟨s.content ++ text first ++ "\n", depth⟩ := by
        rw [blank_eq, hadd hs]
      rw [List.foldl_cons, ih (by rw [hblank]), hblank]
      simp only [List.map_cons, String.intercalate_cons_cons, String.append_assoc]

end Parts

end SourceText
end Java
end ResourceStubs
