/-!
# Glob patterns

The patterns of ignore files.  A pattern is read into tokens, and a text matches if
the tokens, one after the other, can take up all of it.

* `?` takes one byte and `*` any number of bytes, but never a slash;
* `**/` at the start takes any directories or none, `/**/` inside takes a slash or
  any directories between two slashes, and `/**` at the end takes everything below;
* `[a-z]` takes one byte of a class, `[!a-z]` and `[^a-z]` one that is not in it;
* `{a,b}` takes what any of its branches takes, where empty branches do not count;
* a backslash takes away the meaning of the character after it.

Texts are taken byte by byte, so `?` takes only a part of a character outside ASCII.

## Matching without search

A token is a step from one end of what is taken to the next, and there may be several
next ones.  All of them are kept at once, as the set of texts that may be left over;
nothing has to be tried twice, and the tokens are the only thing that the matching
recurses on.
-/

namespace ResourceStubs

/-- One step of a pattern. -/
inductive GlobToken where
  | literal (b : UInt8)
  | any
  | star
  | oneByte (negated : Bool) (ranges : List (UInt8 × UInt8))
  | directoriesFirst
  | directoriesBetween
  | everythingBelow
  | oneOf (branches : List (List GlobToken))
  deriving Repr

/-- A pattern. -/
structure Glob where
  tokens : List GlobToken
  deriving Repr

namespace GlobToken

/-- The slash, as a byte. -/
def slash : UInt8 := 0x2f

/-- What is left of a text after any number of its bytes. -/
def allSuffixes : List UInt8 → List (List UInt8)
  | [] => [[]]
  | b :: bs => (b :: bs) :: allSuffixes bs

/-- What is left of a text after any of its slashes. -/
def afterSlashes : List UInt8 → List (List UInt8)
  | [] => []
  | b :: bs => if b = slash then bs :: afterSlashes bs else afterSlashes bs

/-- What is left of a text after bytes that are not slashes. -/
def afterNames : List UInt8 → List (List UInt8)
  | [] => [[]]
  | b :: bs => (b :: bs) :: if b = slash then [] else afterNames bs

/-- What is left of a text after a byte that a test holds of. -/
def afterByte (test : UInt8 → Bool) : List UInt8 → List (List UInt8)
  | [] => []
  | b :: bs => if test b then [bs] else []

mutual

/-- What may be left of a text after a token. -/
def rests : GlobToken → List UInt8 → List (List UInt8)
  | literal b, text => afterByte (· == b) text
  | any, text => afterByte (· != slash) text
  | star, text => afterNames text
  | oneByte negated ranges, text =>
      afterByte (fun b => (ranges.any fun r => r.1 ≤ b && b ≤ r.2) != negated) text
  | directoriesFirst, text => text :: afterSlashes text
  | directoriesBetween, text => (afterByte (· == slash) text).flatMap fun bs => bs :: afterSlashes bs
  | everythingBelow, text => (afterByte (· == slash) text).flatMap allSuffixes
  | oneOf [], text => [text]
  | oneOf (branch :: branches), text => restsOfAny (branch :: branches) text

/-- What may be left after the tokens of a sequence, from any of the texts that may
be left before it. -/
def restsOfAll : List GlobToken → List (List UInt8) → List (List UInt8)
  | [], texts => texts
  | token :: tokens, texts => restsOfAll tokens (texts.flatMap token.rests).eraseDups

/-- What may be left after any of the branches. -/
def restsOfAny : List (List GlobToken) → List UInt8 → List (List UInt8)
  | [], _ => []
  | branch :: branches, text => restsOfAll branch [text] ++ restsOfAny branches text

end

/-- A token that takes nothing whatever the text is. -/
def isVoid : GlobToken → Bool
  | oneOf [] => true
  | _ => false

/-- The group of some branches. -/
def group (branches : List (List GlobToken)) : GlobToken :=
  oneOf (branches.filter fun branch => !branch.all isVoid)

end GlobToken

namespace Glob

open GlobToken

/-- Does the text match the pattern?  Two stars alone match every text. -/
def accepts (g : Glob) (text : String) : Bool :=
  match g.tokens with
  | [.directoriesFirst] => true
  | tokens => (restsOfAll tokens [text.toList.flatMap String.utf8EncodeChar]).contains []

/-! ## Reading -/

/-- What has been read of a pattern: the tokens of the branch that is open, the last
one first, and for every open group around it the tokens before the group with the
branches that are complete. -/
structure Draft where
  tokens : List GlobToken := []
  outer : List (List GlobToken × List (List GlobToken)) := []
  classesClosed : Bool := true

namespace Draft

/-- Adds a token. -/
def push (d : Draft) (token : GlobToken) : Draft :=
  { d with tokens := token :: d.tokens }

/-- Adds the bytes of a character. -/
def pushChar (d : Draft) (c : Char) : Draft :=
  (String.utf8EncodeChar c).foldl (fun d b => d.push (.literal b)) d

/-- Is a group open? -/
def inGroup (d : Draft) : Bool :=
  !d.outer.isEmpty

/-- Opens a group. -/
def openGroup (d : Draft) : Draft :=
  { d with tokens := [], outer := (d.tokens, []) :: d.outer }

/-- Begins the next branch of the open group. -/
def nextBranch (d : Draft) : Option Draft :=
  match d.outer with
  | (before, branches) :: outer =>
      some { d with tokens := [], outer := (before, d.tokens.reverse :: branches) :: outer }
  | [] => none

/-- Closes the open group. -/
def closeGroup (d : Draft) : Option Draft :=
  match d.outer with
  | (before, branches) :: outer =>
      some { d with tokens := group (d.tokens.reverse :: branches).reverse :: before, outer }
  | [] => none

/-- Puts a token for directories in the place of the token before it.  Directories at
the start already take what more of them would take. -/
def spanDirectories (d : Draft) (token : GlobToken) : Draft :=
  match d.tokens with
  | .directoriesFirst :: _ => d
  | .everythingBelow :: _ => d
  | _ :: tokens => { d with tokens := token :: tokens }
  | [] => d.push token

end Draft

/-- The bytes that a range of characters names.  A range of two characters goes from
the last byte of the first to the first byte of the last; their other bytes stand for
themselves. -/
def byteRanges (range : Char × Char) : List (UInt8 × UInt8) :=
  let first := String.utf8EncodeChar range.1
  let last := String.utf8EncodeChar range.2
  let alone (b : UInt8) : UInt8 × UInt8 := (b, b)
  if range.1 = range.2 then first.map alone
  else
    first.dropLast.map alone ++ (first.drop (first.length - 1)).zip last ++
      (last.drop 1).map alone

/-- What comes of reading a class. -/
inductive ClassReading where
  | closed (ranges : List (Char × Char)) (rest : List Char)
  | unclosed
  | backward
  deriving Repr

/-- Reads a class after its opening bracket and its negation.  A bracket or a dash that
comes first is a member, and so is a dash that comes last. -/
def readClass (ranges : List (Char × Char)) (first inRange : Bool) : List Char → ClassReading
  | [] => .unclosed
  | c :: cs =>
      if c = ']' ∧ !first then
        .closed (if inRange then ('-', '-') :: ranges else ranges) cs
      else if c = '-' ∧ !first ∧ !inRange then readClass ranges false true cs
      else match inRange, ranges with
        | true, (low, _) :: others =>
            if c < low then .backward else readClass ((low, c) :: others) false false cs
        | _, _ => readClass ((c, c) :: ranges) false false cs

/-- Past the sign that negates a class, if it is there. -/
def skipNegation : List Char → Bool × List Char
  | '!' :: cs => (true, cs)
  | '^' :: cs => (true, cs)
  | cs => (false, cs)

/-- Reads the characters of a pattern, where `before` is the character before them.  A
bracket that nothing closes is a bracket, as are all after it. -/
def readTokens (d : Draft) (before : Option Char) (cs : List Char) : Option Draft :=
  match cs with
  | [] => some d
  | '*' :: '*' :: rest =>
      let twoStars := (d.push .star).push .star
      if d.tokens.isEmpty then
        match rest with
        | [] => some (d.push .directoriesFirst)
        | '/' :: rest => readTokens (d.push .directoriesFirst) (some '/') rest
        | c :: rest => readTokens twoStars (some '*') (c :: rest)
      else if before = some '/' ∨ (d.inGroup ∧ before ∈ [some ',', some '\x7b']) then
        match rest with
        | [] => some (d.spanDirectories .everythingBelow)
        | '/' :: rest => readTokens (d.spanDirectories .directoriesBetween) (some '/') rest
        | c :: rest =>
            if d.inGroup ∧ c ∈ [',', '\x7d'] then
              readTokens (d.spanDirectories .everythingBelow) (some '*') (c :: rest)
            else readTokens twoStars (some '*') (c :: rest)
      else readTokens twoStars (some '*') rest
  | '*' :: rest => readTokens (d.push .star) (some '*') rest
  | '?' :: rest => readTokens (d.push .any) (some '?') rest
  | '\\' :: c :: rest => readTokens (d.pushChar c) (some c) rest
  | ['\\'] => none
  | '[' :: rest =>
      let bracket := d.pushChar '['
      if d.classesClosed then
        let (negated, members) := skipNegation rest
        match readClass [] true false members with
        | .closed ranges after =>
            if _h : after.length < ('[' :: rest).length then
              readTokens (d.push (.oneByte negated (ranges.flatMap byteRanges))) (some ']') after
            else none
        | .unclosed => readTokens { bracket with classesClosed := false } (some '[') rest
        | .backward => none
      else readTokens bracket (some '[') rest
  | '\x7b' :: rest => readTokens d.openGroup (some '\x7b') rest
  | '\x7d' :: rest =>
      match d.closeGroup with
      | some d => readTokens d (some '\x7d') rest
      | none => none
  | ',' :: rest =>
      match d.nextBranch with
      | some d => readTokens d (some ',') rest
      | none => readTokens (d.pushChar ',') (some ',') rest
  | c :: rest => readTokens (d.pushChar c) (some c) rest
termination_by cs.length
decreasing_by
  all_goals first | exact _h | (simp only [List.length_cons]; omega)

/-- The pattern that a text writes.  Every group has to be closed, and every range has
to go forward. -/
def ofText? (text : String) : Option Glob :=
  match readTokens {} none text.toList with
  | some d => if d.inGroup then none else some ⟨d.tokens.reverse⟩
  | none => none

end Glob
end ResourceStubs
