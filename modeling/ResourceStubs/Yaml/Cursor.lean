/-!
# A place in a YAML text

A cursor is what is left of a text, with the line and the column it is at.  Before
reading, line ends are brought to one form: a carriage return, a carriage return
with a line feed, and the next-line character all become a line feed.  So every
line break is one character from there on.
-/

namespace ResourceStubs
namespace Yaml

/-- The text with a line feed for every line end of one or two characters. -/
def normalizeBreaks : List Char → List Char
  | [] => []
  | '\r' :: '\n' :: cs => '\n' :: normalizeBreaks cs
  | '\r' :: cs => '\n' :: normalizeBreaks cs
  | c :: cs => (if c = '\x85' then '\n' else c) :: normalizeBreaks cs

/-- The characters that a text may have. -/
def isPrintable (c : Char) : Bool :=
  let n := c.toNat
  n == 0x09 || n == 0x0a || n == 0x0d || (0x20 ≤ n && n ≤ 0x7e) || n == 0x85 ||
    (0xa0 ≤ n && n ≤ 0xfffd) || 0x10000 ≤ n

/-- A line break. -/
def isBreak (c : Char) : Bool :=
  c == '\n' || c == '\u2028' || c == '\u2029'

/-- A blank within a line. -/
def isBlank (c : Char) : Bool :=
  c == ' ' || c == '\t'

/-- A blank or a line break. -/
def isGap (c : Char) : Bool :=
  isBlank c || isBreak c

/-- A letter of `a` to `z` in either case, a digit, a dash or an underscore. -/
def isWordChar (c : Char) : Bool :=
  c.isAlphanum || c == '-' || c == '_'

/-- What is left of a text, and where that is. -/
structure Cursor where
  rest : List Char
  line : Nat := 0
  column : Nat := 0
  index : Nat := 0
  deriving Repr

namespace Cursor

/-- One character further. -/
def advance (c : Cursor) : Cursor :=
  match c.rest with
  | [] => c
  | ch :: rest =>
      if isBreak ch then ⟨rest, c.line + 1, 0, c.index + 1⟩
      else ⟨rest, c.line, c.column + 1, c.index + 1⟩

@[simp] theorem rest_advance (c : Cursor) : c.advance.rest = c.rest.tail := by
  unfold advance
  split
  · simp [*]
  · split <;> simp [*]

/-- The character at the cursor. -/
def head? (c : Cursor) : Option Char :=
  c.rest.head?

/-- The character some places behind the cursor. -/
def ahead? (c : Cursor) (n : Nat) : Option Char :=
  c.rest[n]?

/-- Is the character at the cursor this one? -/
def isAt (c : Cursor) (ch : Char) : Bool :=
  c.head? == some ch

/-- Does the text end some places behind the cursor, or is there a blank or a
break? -/
def gapAt (c : Cursor) (n : Nat) : Bool :=
  match c.ahead? n with
  | none => true
  | some ch => isGap ch

/-- Some characters further. -/
def skip (c : Cursor) : Nat → Cursor
  | 0 => c
  | n + 1 => c.advance.skip n

/-- Past all characters that satisfy `p`, with these characters. -/
def span (p : Char → Bool) (c : Cursor) : List Char × Cursor :=
  match _h : c.rest with
  | [] => ([], c)
  | ch :: _ =>
      if p ch then
        let (run, after) := c.advance.span p
        (ch :: run, after)
      else ([], c)
termination_by c.rest.length
decreasing_by simp [_h]

/-- Past all characters that satisfy `p`. -/
def skipWhile (p : Char → Bool) (c : Cursor) : Cursor :=
  (c.span p).2

/-- Do three equal signs at the start of a line, `---` or `...`, begin or end a
document here? -/
def atDocumentSign (c : Cursor) (sign : Char) : Bool :=
  c.column == 0 && c.rest.take 3 == [sign, sign, sign] && c.gapAt 3

/-- Does a document begin or end here? -/
def atDocumentBoundary (c : Cursor) : Bool :=
  c.atDocumentSign '-' || c.atDocumentSign '.'

end Cursor
end Yaml
end ResourceStubs
