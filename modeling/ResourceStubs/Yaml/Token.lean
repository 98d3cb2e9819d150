import ResourceStubs.Yaml.Scalar

/-!
# Tokens of YAML

A text is cut into tokens.  Indentation is made visible on the way: a block that
begins has a token of its own, and so has its end.

A key is recognised only by the colon behind it.  Wherever a key might begin, the
place in the token sequence is kept, and when the colon comes the token of the key
is put there.  A key that is not written with a question mark is on one line and
not longer than 1024 characters.

A sequence of tokens is held backwards while it grows, since the last token is the
one that is at hand.
-/

namespace ResourceStubs
namespace Yaml

/-- A token of a text. -/
inductive Token where
  | versionDirective (major minor : Nat)
  | tagDirective (handle expansion : String)
  | documentStart
  | documentEnd
  | blockSequenceStart
  | blockMappingStart
  | blockEnd
  | flowSequenceStart
  | flowSequenceEnd
  | flowMappingStart
  | flowMappingEnd
  | blockEntry
  | flowEntry
  | key
  | value
  | anchor (name : String)
  | reference (name : String)
  | tag (handle suffix : String)
  | scalar (text : String) (style : Style)
  deriving DecidableEq, Repr

/-- A place where a key might begin. -/
structure PossibleKey where
  /-- The number of tokens before it. -/
  position : Nat
  /-- Must a key begin here, for want of anything else? -/
  required : Bool
  line : Nat
  column : Nat
  index : Nat
  deriving Repr

/-- A text that is being cut into tokens. -/
structure Scan where
  cursor : Cursor
  /-- The tokens so far, the last one first. -/
  tokens : List Token := []
  /-- The columns of the blocks that are open, the innermost first. -/
  indents : List Nat := []
  /-- Whether a key may begin here. -/
  keyAllowed : Bool := true
  /-- Where a key might begin, for each open bracket and for the block around
  them, the innermost first. -/
  keys : List (Option PossibleKey) := [none]
  deriving Repr

namespace Scan

/-- Is the cursor inside brackets? -/
def inFlow (s : Scan) : Bool :=
  s.keys.length > 1

/-- One more token. -/
def push (s : Scan) (t : Token) : Scan :=
  { s with tokens := t :: s.tokens }

/-- A token at an earlier place. -/
def pushAt (s : Scan) (position : Nat) (t : Token) : Scan :=
  let later := s.tokens.length - position
  { s with tokens := s.tokens.take later ++ t :: s.tokens.drop later }

/-- Opens a block at a column, if the column is deeper than the blocks that are
open. -/
def openBlock (s : Scan) (column position : Nat) (t : Token) : Scan :=
  if s.inFlow then s
  else match s.indents with
    | indent :: _ =>
        if indent < column then { s.pushAt position t with indents := column :: s.indents } else s
    | [] => { s.pushAt position t with indents := [column] }

/-- Closes the blocks among `indents` that are deeper than a column. -/
def closeDeeper (column : Nat) (tokens : List Token) : List Nat → List Token × List Nat
  | [] => (tokens, [])
  | indent :: rest =>
      if column < indent then closeDeeper column (.blockEnd :: tokens) rest
      else (tokens, indent :: rest)

/-- Closes the blocks that are deeper than a column. -/
def closeBlocks (s : Scan) (column : Nat) : Scan :=
  if s.inFlow then s
  else
    let (tokens, indents) := closeDeeper column s.tokens s.indents
    { s with tokens, indents }

/-- Closes all blocks. -/
def closeAllBlocks (s : Scan) : Scan :=
  if s.inFlow then s
  else { s with tokens := s.indents.map (fun _ => Token.blockEnd) ++ s.tokens, indents := [] }

/-- Gives up the place where a key might begin.  If a key has to begin there, the
text is broken. -/
def dropKey (s : Scan) : Option Scan :=
  match s.keys with
  | some k :: rest => if k.required then none else some { s with keys := none :: rest }
  | _ => some s

/-- Notes that a key might begin here. -/
def noteKey (s : Scan) : Option Scan :=
  if s.keyAllowed then do
    let c := s.cursor
    let required := !s.inFlow && s.indents.head? == some c.column
    let s ← s.dropKey
    return { s with keys := some ⟨s.tokens.length, required, c.line, c.column, c.index⟩ :: s.keys.tail }
  else some s

/-- The longest key that is not written with a question mark. -/
def keyLimit : Nat := 1024

/-- Is a place too far back for a key that begins there? -/
def isStale (c : Cursor) (k : PossibleKey) : Bool :=
  k.line < c.line || k.index + keyLimit < c.index

/-- Gives up the places that are too far back. -/
def dropStaleKeys (s : Scan) : Option Scan :=
  let stale (k : Option PossibleKey) : Bool := k.any (isStale s.cursor)
  if s.keys.any fun k => stale k && k.any PossibleKey.required then none
  else some { s with keys := s.keys.map fun k => if stale k then none else k }

/-- A token of some characters at the cursor. -/
def take (s : Scan) (width : Nat) (t : Token) : Scan :=
  { s.push t with cursor := s.cursor.skip width }

/-! ## Between tokens -/

/-- Past blanks, comments and breaks. -/
def skipGaps (flow keyAllowed : Bool) (c : Cursor) : Cursor × Bool :=
  match _h : c.rest with
  | [] => (c, keyAllowed)
  | ch :: _ =>
      if ch == ' ' || ((flow || !keyAllowed) && ch == '\t') || (c.index == 0 && ch == '\uFEFF') then
        skipGaps flow keyAllowed c.advance
      else if isBreak ch then skipGaps flow (keyAllowed || !flow) c.advance
      else if ch == '#' then
        let after := c.skipWhile fun ch => !isBreak ch
        if _hafter : after.rest.length < c.rest.length then skipGaps flow keyAllowed after
        else (c, keyAllowed)
      else (c, keyAllowed)
termination_by c.rest.length
decreasing_by
  · simp [_h]
  · simp [_h]
  · exact _hafter

/-! ## Tags and directives -/

/-- The characters of a tag.  Inside angle brackets some more are allowed. -/
def isTagChar (verbatim : Bool) (c : Char) : Bool :=
  isWordChar c || ";/?:@&=+$.!~*'()%".toList.contains c || (verbatim && ",[]".toList.contains c)

/-- Is every percent sign followed by two hexadecimal digits? -/
def escapesAreWhole : List Char → Bool
  | [] => true
  | '%' :: a :: b :: cs => (hexDigit? a).isSome && (hexDigit? b).isSome && escapesAreWhole cs
  | '%' :: _ => false
  | _ :: cs => escapesAreWhole cs

/-- The characters of a tag at the cursor. -/
def tagText? (verbatim : Bool) (c : Cursor) : Option (List Char × Cursor) :=
  let (run, after) := c.span (isTagChar verbatim)
  if escapesAreWhole run then some (run, after) else none

/-- The handle of a tag at the cursor: an exclamation mark, and a word with another
one behind it if there is one. -/
def tagHandle (c : Cursor) : List Char × Cursor :=
  let (word, after) := c.advance.span isWordChar
  if after.isAt '!' then ('!' :: word ++ ['!'], after.advance) else ('!' :: word, after)

/-- Reads a tag: `!<text>`, `!handle!text`, or `!text`. -/
def readTag (c : Cursor) : Option (Token × Cursor) :=
  if c.ahead? 1 = some '<' then do
    let (text, after) ← tagText? true (c.skip 2)
    if text.isEmpty || !after.isAt '>' then none
    else return (.tag "" (String.ofList text), after.advance)
  else
    let (handle, after) := tagHandle c
    if 2 ≤ handle.length ∧ handle.getLast? = some '!' then do
      let (text, after) ← tagText? false after
      if text.isEmpty then none
      else return (.tag (String.ofList handle) (String.ofList text), after)
    else do
      -- without a second mark, what was read as a handle belongs to the text
      let (text, after) ← tagText? false after
      let text := handle.tail ++ text
      if text.isEmpty then return (.tag "" "!", after)
      else return (.tag "!" (String.ofList text), after)

/-- The number at the cursor. -/
def readNumber (c : Cursor) : Option (Nat × Cursor) :=
  let (digits, after) := c.span Char.isDigit
  if digits.isEmpty ∨ 9 < digits.length then none
  else some (digits.foldl (fun n d => 10 * n + (d.toNat - '0'.toNat)) 0, after)

/-- Reads a directive: the version, or a handle with what it stands for. -/
def readDirective (c : Cursor) : Option (Token × Cursor) := do
  let (name, c) := c.advance.span isWordChar
  let c' := c.skipWhile isBlank
  if name = "YAML".toList ∧ c.gapAt 0 then
    let (major, c) ← readNumber c'
    if !c.isAt '.' then none
    let (minor, c) ← readNumber c.advance
    return (.versionDirective major minor, c)
  else if name = "TAG".toList ∧ c.gapAt 0 then
    if !c'.isAt '!' then none
    let (handle, c) := tagHandle c'
    if handle.length ≠ 1 ∧ handle.getLast? ≠ some '!' then none
    if !c.head?.any isBlank then none
    let (expansion, c) ← tagText? true (c.skipWhile isBlank)
    if expansion.isEmpty || !c.gapAt 0 then none
    return (.tagDirective (String.ofList handle) (String.ofList expansion), c)
  else none

/-- The name of an anchor or a reference, whose sign is at the cursor. -/
def readName (c : Cursor) : Option (String × Cursor) :=
  let (name, after) := c.advance.span isWordChar
  if name.isEmpty then none
  else if after.gapAt 0 || after.head?.any fun ch => "?:,]\x7d%@`".toList.contains ch then
    some (String.ofList name, after)
  else none

/-! ## One token -/

/-- A sign between documents. -/
def documentSign (s : Scan) (t : Token) : Option Scan := do
  let s ← s.closeAllBlocks.dropKey
  return { s.take 3 t with keyAllowed := false }

/-- A directive. -/
def directive (s : Scan) : Option Scan := do
  let s ← s.closeAllBlocks.dropKey
  let (t, c) ← readDirective s.cursor
  let c ← endHeaderLine c
  return { s.push t with cursor := c, keyAllowed := false }

/-- An opening bracket. -/
def openFlow (s : Scan) (t : Token) : Option Scan := do
  let s ← s.noteKey
  return { s.take 1 t with keys := none :: s.keys, keyAllowed := true }

/-- A closing bracket. -/
def closeFlow (s : Scan) (t : Token) : Option Scan := do
  let s ← s.dropKey
  return { s.take 1 t with
    keys := if s.inFlow then s.keys.tail else s.keys
    keyAllowed := false }

/-- A comma. -/
def flowComma (s : Scan) : Option Scan := do
  let s ← s.dropKey
  return { s.take 1 .flowEntry with keyAllowed := true }

/-- A dash in front of an entry. -/
def entryDash (s : Scan) : Option Scan := do
  if !s.inFlow && !s.keyAllowed then none
  let s ← (s.openBlock s.cursor.column s.tokens.length .blockSequenceStart).dropKey
  return { s.take 1 .blockEntry with keyAllowed := true }

/-- A question mark in front of a key. -/
def keyMark (s : Scan) : Option Scan := do
  if !s.inFlow && !s.keyAllowed then none
  let s ← (s.openBlock s.cursor.column s.tokens.length .blockMappingStart).dropKey
  return { s.take 1 .key with keyAllowed := !s.inFlow }

/-- A colon in front of a value. -/
def valueColon (s : Scan) : Option Scan :=
  match s.keys with
  | some k :: rest =>
      let s := (s.pushAt k.position .key).openBlock k.column k.position .blockMappingStart
      some { s.take 1 .value with keys := none :: rest, keyAllowed := false }
  | _ =>
      if !s.inFlow && !s.keyAllowed then none
      else
        let s := s.openBlock s.cursor.column s.tokens.length .blockMappingStart
        some { s.take 1 .value with keyAllowed := !s.inFlow }

/-- An anchor or a reference. -/
def named (s : Scan) (token : String → Token) : Option Scan := do
  let s ← s.noteKey
  let (name, c) ← readName s.cursor
  return { s.push (token name) with cursor := c, keyAllowed := false }

/-- A tag. -/
def tagged (s : Scan) : Option Scan := do
  let s ← s.noteKey
  let (t, c) ← readTag s.cursor
  if c.gapAt 0 || (s.inFlow && c.isAt ',') then
    return { s.push t with cursor := c, keyAllowed := false }
  none

/-- A scalar that has been read. -/
def pushScalar (s : Scan) (r : ReadScalar) (style : Style) (keyAllowed : Bool) : Scan :=
  { s.push (.scalar (String.ofList r.text) style) with cursor := r.after, keyAllowed }

/-- A block scalar. -/
def blockScalar (s : Scan) (literal : Bool) : Option Scan := do
  let s ← s.dropKey
  let r ← readBlock literal s.indents.head? s.cursor
  return s.pushScalar r (if literal then .literal else .folded) true

/-- A quoted scalar. -/
def quotedScalar (s : Scan) : Option Scan := do
  let s ← s.noteKey
  let r ← readQuoted s.cursor
  return s.pushScalar r .quoted false

/-- The column that a plain scalar in a block has to be indented to. -/
def plainIndent (s : Scan) : Nat :=
  match s.indents with
  | indent :: _ => indent + 1
  | [] => 0

/-- A plain scalar. -/
def plainScalar (s : Scan) : Option Scan := do
  let s ← s.noteKey
  let r ← readPlain s.inFlow s.plainIndent s.cursor
  return s.pushScalar r .plain r.pastBreak

/-- The signs that no plain scalar begins with, a few exceptions apart. -/
def isIndicator (c : Char) : Bool :=
  "-?:,[]\x7b\x7d#&*!|>'\"%@`".toList.contains c

/-- Does a plain scalar begin here? -/
def startsPlain (s : Scan) (ch : Char) : Bool :=
  (!isIndicator ch && !isGap ch) ||
    (ch == '-' && !(s.cursor.ahead? 1).any isBlank) ||
    (!s.inFlow && (ch == '?' || ch == ':') && !s.cursor.gapAt 1)

/-- The token at the cursor, which is at the character `ch`. -/
def token (s : Scan) (ch : Char) : Option Scan :=
  let c := s.cursor
  if c.column == 0 && ch == '%' then s.directive
  else if c.atDocumentSign '-' then s.documentSign .documentStart
  else if c.atDocumentSign '.' then s.documentSign .documentEnd
  else if ch == '[' then s.openFlow .flowSequenceStart
  else if ch == '\x7b' then s.openFlow .flowMappingStart
  else if ch == ']' then s.closeFlow .flowSequenceEnd
  else if ch == '\x7d' then s.closeFlow .flowMappingEnd
  else if ch == ',' then s.flowComma
  else if ch == '-' && c.gapAt 1 then s.entryDash
  else if ch == '?' && (s.inFlow || c.gapAt 1) then s.keyMark
  else if ch == ':' && (s.inFlow || c.gapAt 1) then s.valueColon
  else if ch == '*' then s.named .reference
  else if ch == '&' then s.named .anchor
  else if ch == '!' then s.tagged
  else if ch == '|' && !s.inFlow then s.blockScalar true
  else if ch == '>' && !s.inFlow then s.blockScalar false
  else if ch == '\'' || ch == '"' then s.quotedScalar
  else if s.startsPlain ch then s.plainScalar
  else none

/-- Past what is between two tokens, with the blocks closed that end there. -/
def settle (s : Scan) : Option Scan := do
  let (cursor, keyAllowed) := skipGaps s.inFlow s.keyAllowed s.cursor
  let s ← dropStaleKeys { s with cursor, keyAllowed }
  return s.closeBlocks cursor.column

/-- All tokens from the cursor on, in order.  A token that takes nothing from the
text would be an error; there is none. -/
def run (s : Scan) : Option (List Token) :=
  match s.settle with
  | none => none
  | some settled =>
      match settled.cursor.rest with
      | [] => settled.closeAllBlocks.dropKey.map fun s => s.tokens.reverse
      | ch :: _ =>
          match settled.token ch with
          | none => none
          | some next =>
              if next.cursor.rest.length < s.cursor.rest.length then next.run else none
termination_by s.cursor.rest.length

end Scan

/-- The tokens of a text. -/
def tokens? (text : String) : Option (List Token) :=
  let cs := match text.toList with
    | '\uFEFF' :: cs => cs
    | cs => cs
  if cs.all isPrintable then Scan.run ⟨⟨normalizeBreaks cs, 0, 0, 0⟩, [], [], true, [none]⟩
  else none

end Yaml
end ResourceStubs
