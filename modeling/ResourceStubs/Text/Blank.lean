/-!
# Blank characters, words and lines

A character is blank if Unicode gives it the property `White_Space`.  That set
is larger than the one of ASCII: it has the no-break space and the ideographic
space, and it lacks the zero width space and the byte order mark.  Trimming a
text and cutting it into words both go by it.  Lines are cut at line feeds alone;
a carriage return before a line feed belongs to the line end.
-/

namespace ResourceStubs
namespace Text

/-- The characters with the Unicode property `White_Space`. -/
def isBlank (c : Char) : Bool :=
  let n := c.toNat
  (0x09 ≤ n && n ≤ 0x0d) || n == 0x20 || n == 0x85 || n == 0xa0 || n == 0x1680 ||
  (0x2000 ≤ n && n ≤ 0x200a) || n == 0x2028 || n == 0x2029 || n == 0x202f ||
  n == 0x205f || n == 0x3000

/-- Whitespace in the sense of core is blank. -/
theorem isBlank_of_isWhitespace {c : Char} (h : c.isWhitespace) : isBlank c := by
  simp only [Char.isWhitespace, Bool.or_eq_true, decide_eq_true_eq] at h
  rcases h with ((h | h) | h) | h <;> subst h <;> decide

/-- Drops the elements at the end that satisfy `p`. -/
def dropEndWhile (p : α → Bool) (l : List α) : List α :=
  (l.reverse.dropWhile p).reverse

/-- Drops the blanks at both ends. -/
def trim (cs : List Char) : List Char :=
  dropEndWhile isBlank (cs.dropWhile isBlank)

/-- Drops every blank. -/
def withoutBlanks (cs : List Char) : List Char :=
  cs.filter fun c => !isBlank c

/-- The maximal runs of characters that are not blank, in order. -/
def words (cs : List Char) : List (List Char) :=
  go [] cs
where
  /-- `word` holds the characters of the current run, last first. -/
  go (word : List Char) : List Char → List (List Char)
    | [] => if word.isEmpty then [] else [word.reverse]
    | c :: cs =>
        if isBlank c then
          if word.isEmpty then go [] cs else word.reverse :: go [] cs
        else go (c :: word) cs

/-- The lines of a text: what stands before each line feed, less one carriage
return at its end, and what stands after the last line feed unless it is empty.
-/
def lines (cs : List Char) : List (List Char) :=
  go [] cs
where
  /-- `line` holds the characters of the current line, last first. -/
  go (line : List Char) : List Char → List (List Char)
    | [] => if line.isEmpty then [] else [line.reverse]
    | '\n' :: cs =>
        let line := match line with
          | '\r' :: before => before
          | line => line
        line.reverse :: go [] cs
    | c :: cs => go (c :: line) cs

/-- Are all characters of the text blank? -/
def isBlankText (cs : List Char) : Bool :=
  cs.all isBlank

end Text
end ResourceStubs
