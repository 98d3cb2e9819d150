import ResourceStubs.Yaml.Cursor

/-!
# Scalars of YAML

A scalar is written plain, between quotes, or as a block of lines.  In all but the
last, a line break inside the scalar is folded: one break becomes a blank, and of
several the first is dropped.  Blanks around a break are dropped.

A plain scalar ends at a comment, at a colon with a blank behind it, and at a line
that is not indented enough; inside brackets it ends at signs of the flow as well.
A block scalar has a header that says how its last line breaks are kept and, where
the first line does not show it, how far it is indented.
-/

namespace ResourceStubs
namespace Yaml

/-- How a scalar is written, as far as that says what it means. -/
inductive Style where
  | plain
  | quoted
  | literal
  | folded
  deriving DecidableEq, Repr

/-- The blanks and breaks between two runs of a scalar, and where they end. -/
structure Gap where
  blanks : List Char
  breaks : List Char
  after : Cursor

/-- Reads blanks and breaks.  `started` says that a break came before, so blanks no
longer count; then a tab left of the column `indent` is refused. -/
def readGap (indent : Nat) (started : Bool) (blanks breaks : List Char) (c : Cursor) :
    Option Gap :=
  match _h : c.rest with
  | [] => some ⟨blanks, breaks, c⟩
  | ch :: _ =>
      if isBlank ch then
        if started && ch == '\t' && c.column < indent then none
        else readGap indent started (if started then blanks else blanks ++ [ch]) breaks c.advance
      else if isBreak ch then readGap indent true [] (breaks ++ [ch]) c.advance
      else some ⟨blanks, breaks, c⟩
termination_by c.rest.length
decreasing_by all_goals simp [_h]

/-- What breaks become inside a scalar. -/
def foldBreaks : List Char → List Char
  | ['\n'] => [' ']
  | '\n' :: more => more
  | breaks => breaks

/-- What a gap becomes inside a scalar. -/
def Gap.folded (g : Gap) : List Char :=
  if g.breaks.isEmpty then g.blanks else foldBreaks g.breaks

/-! ## Plain scalars -/

/-- The signs of the flow. -/
def isFlowSign (c : Char) : Bool :=
  c == ',' || c == '[' || c == ']' || c == '\x7b' || c == '\x7d'

/-- The signs that may not stand right behind a colon inside the flow. -/
def isFlowSignOrQuestion (c : Char) : Bool :=
  isFlowSign c || c == '?'

/-- A run of a plain scalar up to a blank, a break or a sign that ends it. -/
def plainRun (flow : Bool) (c : Cursor) : Option (List Char × Cursor) :=
  match _h : c.rest with
  | [] => some ([], c)
  | ch :: rest =>
      if isGap ch then some ([], c)
      else if flow && ch == ':' && rest.head?.any isFlowSignOrQuestion then none
      else if (ch == ':' && c.gapAt 1) || (flow && isFlowSign ch) then some ([], c)
      else (plainRun flow c.advance).map fun (run, after) => (ch :: run, after)
termination_by c.rest.length
decreasing_by simp [_h]

/-- A scalar that has been read. -/
structure ReadScalar where
  text : List Char
  after : Cursor
  /-- Did the reading go past a line break behind the scalar? -/
  pastBreak : Bool := false

/-- Reads on a plain scalar.  `text` has been read and `gap` is what comes between
it and the cursor. -/
def plainFrom (flow : Bool) (indent : Nat) (text gap : List Char) (pastBreak : Bool)
    (c : Cursor) : Option ReadScalar :=
  if c.atDocumentBoundary || c.isAt '#' then some ⟨text, c, pastBreak⟩
  else match plainRun flow c with
    | none => none
    | some (run, after) =>
        if _h : run.isEmpty ∨ c.rest.length ≤ after.rest.length then some ⟨text, c, pastBreak⟩
        else
          let text := text ++ gap ++ run
          if after.gapAt 0 then
            match readGap indent false [] [] after with
            | none => none
            | some g =>
                let pastBreak := !g.breaks.isEmpty
                if g.after.rest.isEmpty || (!flow && g.after.column < indent) then
                  some ⟨text, g.after, pastBreak⟩
                else if _hg : c.rest.length ≤ g.after.rest.length then none
                else plainFrom flow indent text g.folded pastBreak g.after
          else some ⟨text, after, false⟩
termination_by c.rest.length
decreasing_by omega

/-- Reads a plain scalar. -/
def readPlain (flow : Bool) (indent : Nat) (c : Cursor) : Option ReadScalar :=
  plainFrom flow indent [] [] false c

/-! ## Quoted scalars -/

/-- The value of a hexadecimal digit. -/
def hexDigit? (c : Char) : Option Nat :=
  if '0' ≤ c ∧ c ≤ '9' then some (c.toNat - '0'.toNat)
  else if 'a' ≤ c ∧ c ≤ 'f' then some (c.toNat - 'a'.toNat + 10)
  else if 'A' ≤ c ∧ c ≤ 'F' then some (c.toNat - 'A'.toNat + 10)
  else none

/-- The number that hexadecimal digits denote. -/
def hexNumber? (digits : List Char) : Option Nat :=
  digits.foldlM (fun n c => (hexDigit? c).map (16 * n + ·)) 0

/-- The character that an escape with a code point of some digits stands for, where
`cs` is what follows the letter of the escape. -/
def codePointEscape? (width : Nat) (cs : List Char) : Option Char := do
  let digits := cs.take width
  if digits.length = width then
    let n ← hexNumber? digits
    if n.isValidChar then return Char.ofNat n
  none

/-- The character that an escape stands for, and how many characters follow the
backslash, where `cs` is what follows the backslash. -/
def escape? : List Char → Option (Char × Nat)
  | [] => none
  | 'x' :: cs => (codePointEscape? 2 cs).map (·, 3)
  | 'u' :: cs => (codePointEscape? 4 cs).map (·, 5)
  | 'U' :: cs => (codePointEscape? 8 cs).map (·, 9)
  | c :: _ =>
      let named := [('0', '\x00'), ('a', '\x07'), ('b', '\x08'), ('t', '\t'), ('\t', '\t'),
        ('n', '\n'), ('v', '\x0b'), ('f', '\x0c'), ('r', '\r'), ('e', '\x1b'), (' ', ' '),
        ('"', '"'), ('/', '/'), ('\\', '\\'), ('N', '\u0085'), ('_', '\u00a0'),
        ('L', '\u2028'), ('P', '\u2029')]
      (named.lookup c).map (·, 1)

/-- A run of a quoted scalar up to a blank, a break or the closing quote.  The last
part says that the run ended with a break that a backslash takes away. -/
def quotedRun (single : Bool) (c : Cursor) : Option (List Char × Cursor × Bool) :=
  match _h : c.rest with
  | [] => some ([], c, false)
  | ch :: rest =>
      if isGap ch then some ([], c, false)
      else if single then
        if ch = '\'' then
          if rest.head? = some '\'' then
            (quotedRun single (c.skip 2)).map fun (run, after) => ('\'' :: run, after)
          else some ([], c, false)
        else (quotedRun single c.advance).map fun (run, after) => (ch :: run, after)
      else if ch = '"' then some ([], c, false)
      else if ch = '\\' then
        if rest.head?.any isBreak then some ([], c.skip 2, true)
        else match escape? rest with
          | none => none
          | some (escaped, width) =>
              (quotedRun single (c.advance.skip width)).map fun (run, after) =>
                (escaped :: run, after)
      else (quotedRun single c.advance).map fun (run, after) => (ch :: run, after)
termination_by c.rest.length
decreasing_by
  · simp only [Cursor.skip, Cursor.rest_advance, _h, List.tail_cons, List.length_tail,
      List.length_cons]
    omega
  · simp [_h]
  · have hskip : ∀ (n : Nat) (d : Cursor), (d.skip n).rest.length ≤ d.rest.length := by
      intro n
      induction n with
      | zero => intro d; exact Nat.le_refl _
      | succ n ih =>
        intro d
        refine Nat.le_trans (ih d.advance) ?_
        simp
    have := hskip width c.advance
    simp only [Cursor.rest_advance, _h, List.tail_cons, List.length_cons] at *
    omega
  · simp [_h]

/-- Reads on a quoted scalar up to behind its closing quote. -/
def quotedFrom (single : Bool) (text : List Char) (c : Cursor) : Option ReadScalar :=
  if c.atDocumentBoundary || c.rest.isEmpty then none
  else match quotedRun single c with
    | none => none
    | some (run, after, escapedBreak) =>
        let text := text ++ run
        if !escapedBreak && after.isAt (if single then '\'' else '"') then
          some ⟨text, after.advance, false⟩
        else match readGap 0 escapedBreak [] [] after with
          | none => none
          | some g =>
              let joined := if escapedBreak then g.breaks else g.folded
              if _h : c.rest.length ≤ g.after.rest.length then none
              else quotedFrom single (text ++ joined) g.after
termination_by c.rest.length
decreasing_by omega

/-- Reads a quoted scalar whose opening quote is at the cursor. -/
def readQuoted (c : Cursor) : Option ReadScalar :=
  quotedFrom (c.isAt '\'') [] c.advance

/-! ## Block scalars -/

/-- What becomes of the breaks at the end of a block scalar. -/
inductive Chomping where
  | strip
  | clip
  | keep
  deriving DecidableEq, Repr

/-- The header of a block scalar: how the end is chomped, and the indentation if it
is given. -/
structure BlockHeader where
  chomping : Chomping := .clip
  increment : Nat := 0

/-- The chomping that a sign stands for. -/
def chomping? (c : Char) : Option Chomping :=
  if c = '+' then some .keep else if c = '-' then some .strip else none

/-- The header of a block scalar with what follows it.  The two parts come in either
order; an indentation is one digit and not zero. -/
def readBlockHeader (c : Cursor) : Option (BlockHeader × Cursor) :=
  let digit? (c : Cursor) : Option (Option (Nat × Cursor)) :=
    match c.head? with
    | some ch =>
        if ch = '0' then none
        else if ch.isDigit then some (some (ch.toNat - '0'.toNat, c.advance))
        else some none
    | none => some none
  match c.head?.bind chomping? with
  | some chomping =>
      match digit? c.advance with
      | none => none
      | some none => some (⟨chomping, 0⟩, c.advance)
      | some (some (n, after)) => some (⟨chomping, n⟩, after)
  | none =>
      match digit? c with
      | none => none
      | some none => some ({}, c)
      | some (some (n, after)) =>
          match after.head?.bind chomping? with
          | some chomping => some (⟨chomping, n⟩, after.advance)
          | none => some (⟨.clip, n⟩, after)

/-- Past the rest of a header line: blanks, a comment, and the break. -/
def endHeaderLine (c : Cursor) : Option Cursor :=
  let c := c.skipWhile isBlank
  let c := if c.isAt '#' then c.skipWhile fun ch => !isBreak ch else c
  match c.head? with
  | none => some c
  | some ch => if isBreak ch then some c.advance else none

/-- The breaks of empty lines, where the lines of the block are indented by
`indent`, or by an unknown number if that is zero; and the widest indentation among
them. -/
def blockBreaks (indent widest : Nat) (breaks : List Char) (c : Cursor) :
    Option (List Char × Nat × Cursor) :=
  match _h : c.rest with
  | [] => some (breaks, max widest c.column, c)
  | ch :: _ =>
      let inMargin := indent == 0 || c.column < indent
      if inMargin && ch == ' ' then blockBreaks indent widest breaks c.advance
      else
        let widest := max widest c.column
        if inMargin && ch == '\t' then none
        else if isBreak ch then blockBreaks indent widest (breaks ++ [ch]) c.advance
        else some (breaks, widest, c)
termination_by c.rest.length
decreasing_by all_goals simp [_h]

/-- What has been read of a block scalar. -/
structure BlockState where
  text : List Char := []
  /-- The break behind the last line, if any. -/
  lastBreak : List Char := []
  /-- The breaks of empty lines after it. -/
  emptyLines : List Char := []
  /-- Does the last line begin with a blank? -/
  blankStart : Bool := false

/-- Reads the lines of a block scalar. -/
def blockLines (literal : Bool) (indent : Nat) (s : BlockState) (c : Cursor) :
    Option (BlockState × Cursor) :=
  if c.column ≠ indent ∨ c.rest.isEmpty then some (s, c)
  else
    let blankStart := c.head?.any isBlank
    let joint :=
      if !literal && s.lastBreak == ['\n'] && !s.blankStart && !blankStart then
        if s.emptyLines.isEmpty then [' '] else []
      else s.lastBreak
    let (line, atBreak) := c.span fun ch => !isBreak ch
    let lastBreak := atBreak.head?.toList
    match blockBreaks indent 0 [] atBreak.advance with
    | none => none
    | some (emptyLines, _, after) =>
        if _h : c.rest.length ≤ after.rest.length then none
        else
          blockLines literal indent
            ⟨s.text ++ joint ++ s.emptyLines ++ line, lastBreak, emptyLines, blankStart⟩ after
termination_by c.rest.length
decreasing_by omega

/-- The text of a block scalar with its end chomped. -/
def BlockState.chomped (s : BlockState) : Chomping → List Char
  | .strip => s.text
  | .clip => s.text ++ s.lastBreak
  | .keep => s.text ++ s.lastBreak ++ s.emptyLines

/-- Reads a block scalar whose sign is at the cursor, where `parent` is the column
that the block around it is indented to, or none at the top. -/
def readBlock (literal : Bool) (parent : Option Nat) (c : Cursor) : Option ReadScalar := do
  let (header, c) ← readBlockHeader c.advance
  let c ← endHeaderLine c
  let given := if header.increment = 0 then 0 else parent.getD 0 + header.increment
  let (emptyLines, widest, c) ← blockBreaks given 0 [] c
  let least := match parent with
    | some column => column + 1
    | none => 1
  let indent := if given = 0 then max widest least else given
  let (s, c) ← blockLines literal indent { emptyLines } c
  return ⟨s.chomped header.chomping, c, false⟩

end Yaml
end ResourceStubs
