import ResourceStubs.Json.Value

/-!
# Reading JSON

The document is cut into tokens, and the tokens are put together to one value by a
stack of the arrays and objects that are open.  Every token takes one step, so the
reading ends with the tokens, however deep the value is.

## What is strict

Blanks are space, tab, carriage return and line feed.  A number has no leading
zero and has a digit on both sides of its point.  A string has no control
characters.  Nothing comes after the value, and no comma comes before a closing
bracket.
-/

namespace ResourceStubs
namespace Json

/-- A word or sign of a document. -/
inductive Token where
  | openArray
  | closeArray
  | openObject
  | closeObject
  | comma
  | colon
  | string (text : Option String)
  | scalar (value : Value)
  deriving Repr

/-- The blanks between tokens. -/
def isBlank (c : Char) : Bool :=
  c == ' ' || c == '\t' || c == '\r' || c == '\n'

/-- The value of a hexadecimal digit. -/
def hexValue? (c : Char) : Option Nat :=
  if '0' ≤ c ∧ c ≤ '9' then some (c.toNat - '0'.toNat)
  else if 'a' ≤ c ∧ c ≤ 'f' then some (c.toNat - 'a'.toNat + 10)
  else if 'A' ≤ c ∧ c ≤ 'F' then some (c.toNat - 'A'.toNat + 10)
  else none

/-- The number that four hexadecimal digits denote. -/
def hexUnit? (a b c d : Char) : Option Nat := do
  return (((← hexValue? a) * 16 + (← hexValue? b)) * 16 + (← hexValue? c)) * 16 + (← hexValue? d)

/-- The unit that a one-letter escape stands for. -/
def simpleEscape? (c : Char) : Option Nat :=
  match c with
  | '"' => some 0x22
  | '\\' => some 0x5c
  | '/' => some 0x2f
  | 'b' => some 0x08
  | 'f' => some 0x0c
  | 'n' => some 0x0a
  | 'r' => some 0x0d
  | 't' => some 0x09
  | _ => none

/-- A piece of a string: a character as it stands, or the unit of an escape. -/
inductive Piece where
  | char (c : Char)
  | unit (n : Nat)

/-- The pieces of a string up to its closing quote, and what follows it. -/
def stringPieces? : List Char → Option (List Piece × List Char)
  | [] => none
  | '"' :: rest => some ([], rest)
  | '\\' :: 'u' :: a :: b :: c :: d :: rest => do
      let n ← hexUnit? a b c d
      let (pieces, rest) ← stringPieces? rest
      return (.unit n :: pieces, rest)
  | '\\' :: c :: rest => do
      let n ← simpleEscape? c
      let (pieces, rest) ← stringPieces? rest
      return (.unit n :: pieces, rest)
  | c :: rest =>
      if c.toNat < 0x20 ∨ c = '\\' then none
      else do
        let (pieces, rest) ← stringPieces? rest
        return (.char c :: pieces, rest)

/-- Is the unit the first half of a surrogate pair? -/
def isLeading (n : Nat) : Bool := 0xd800 ≤ n && n < 0xdc00

/-- Is the unit the second half of a surrogate pair? -/
def isTrailing (n : Nat) : Bool := 0xdc00 ≤ n && n < 0xe000

/-- The text of the pieces, unless half of a pair stands alone. -/
def textOfPieces? : List Piece → Option (List Char)
  | [] => some []
  | .char c :: rest => (textOfPieces? rest).map (c :: ·)
  | .unit n :: .unit m :: rest =>
      if isLeading n then
        if isTrailing m then
          (textOfPieces? rest).map
            (Char.ofNat (0x10000 + (n - 0xd800) * 0x400 + (m - 0xdc00)) :: ·)
        else none
      else if isTrailing n then none
      else (textOfPieces? (.unit m :: rest)).map (Char.ofNat n :: ·)
  | .unit n :: rest =>
      if isLeading n || isTrailing n then none
      else (textOfPieces? rest).map (Char.ofNat n :: ·)

/-- One digit at least, and what follows the digits. -/
def digits? (cs : List Char) : Option (List Char) :=
  match cs with
  | c :: _ => if c.isDigit then some (cs.dropWhile Char.isDigit) else none
  | [] => none

/-- What follows the whole part of a number. -/
def afterWhole? : List Char → Option (List Char)
  | '0' :: rest =>
      match rest with
      | c :: _ => if c.isDigit then none else some rest
      | [] => some []
  | cs => digits? cs

/-- What follows the fraction of a number, if it has one. -/
def afterFraction? : List Char → Option (List Char)
  | '.' :: rest => digits? rest
  | cs => some cs

/-- What follows the exponent of a number, if it has one. -/
def afterExponent? : List Char → Option (List Char)
  | c :: rest =>
      if c = 'e' ∨ c = 'E' then
        match rest with
        | '+' :: rest => digits? rest
        | '-' :: rest => digits? rest
        | rest => digits? rest
      else some (c :: rest)
  | [] => some []

/-- What follows a number. -/
def afterNumber? (cs : List Char) : Option (List Char) := do
  let unsigned := match cs with
    | '-' :: rest => rest
    | cs => cs
  afterExponent? (← afterFraction? (← afterWhole? unsigned))

/-- The token at the start of a text that does not start with a blank, and what
follows it. -/
def token? (cs : List Char) : Option (Token × List Char) :=
  match cs with
  | '[' :: rest => some (.openArray, rest)
  | ']' :: rest => some (.closeArray, rest)
  | '\x7b' :: rest => some (.openObject, rest)
  | '\x7d' :: rest => some (.closeObject, rest)
  | ',' :: rest => some (.comma, rest)
  | ':' :: rest => some (.colon, rest)
  | '"' :: rest => do
      let (pieces, rest) ← stringPieces? rest
      return (.string ((textOfPieces? pieces).map String.ofList), rest)
  | 't' :: 'r' :: 'u' :: 'e' :: rest => some (.scalar (.boolean true), rest)
  | 'f' :: 'a' :: 'l' :: 's' :: 'e' :: rest => some (.scalar (.boolean false), rest)
  | 'n' :: 'u' :: 'l' :: 'l' :: rest => some (.scalar .null, rest)
  | cs => (afterNumber? cs).map fun rest => (.scalar .number, rest)

/-- The tokens of a text.  A token that takes nothing from the text ends the
reading; there is none. -/
def tokens? (cs : List Char) : Option (List Token) :=
  match _h : cs.dropWhile isBlank with
  | [] => some []
  | c :: rest =>
      match token? (c :: rest) with
      | none => none
      | some (token, after) =>
          if after.length ≤ rest.length then (tokens? after).map (token :: ·) else none
termination_by cs.length
decreasing_by
  have := (List.dropWhile_sublist (l := cs) isBlank).length_le
  rw [_h] at this
  simp only [List.length_cons] at this
  omega

/-- An array or object that is open, with what it has so far, last first. -/
inductive Frame where
  | array (done : List Value)
  | object (done : List (Option String × Value)) (key : Option String)
  deriving Repr

/-- What may come next. -/
inductive Expected where
  | value
  | elementOrClose
  | keyOrClose
  | key
  | colon
  | separator (value : Value)
  deriving Repr

/-- The value of the tokens, where `frames` are open, the innermost first. -/
def build? : List Frame → Expected → List Token → Option Value
  | [], .separator v, [] => some v
  | _, _, [] => none
  | frames, .value, token :: rest | frames, .elementOrClose, token :: rest =>
      match token with
      | .string text => build? frames (.separator (.string text)) rest
      | .scalar v => build? frames (.separator v) rest
      | .openArray => build? (.array [] :: frames) .elementOrClose rest
      | .openObject => build? (.object [] none :: frames) .keyOrClose rest
      | .closeArray =>
          -- only an array without elements is closed here
          match frames with
          | .array [] :: frames => build? frames (.separator (.array [])) rest
          | _ => none
      | _ => none
  | .object done _ :: frames, .keyOrClose, .closeObject :: rest =>
      if done.isEmpty then build? frames (.separator (.object [])) rest else none
  | .object done _ :: frames, .keyOrClose, .string key :: rest
  | .object done _ :: frames, .key, .string key :: rest =>
      build? (.object done key :: frames) .colon rest
  | frames, .colon, .colon :: rest => build? frames .value rest
  | .array done :: frames, .separator v, .comma :: rest =>
      build? (.array (v :: done) :: frames) .value rest
  | .array done :: frames, .separator v, .closeArray :: rest =>
      build? frames (.separator (.array (v :: done).reverse)) rest
  | .object done key :: frames, .separator v, .comma :: rest =>
      build? (.object ((key, v) :: done) none :: frames) .key rest
  | .object done key :: frames, .separator v, .closeObject :: rest =>
      build? frames (.separator (.object ((key, v) :: done).reverse)) rest
  | _, _, _ :: _ => none

/-- The value of a document, if it is well formed. -/
def read? (document : String) : Option Value := do
  build? [] .value (← tokens? document.toList)

end Json
end ResourceStubs
