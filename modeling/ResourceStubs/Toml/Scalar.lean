/-!
# Scalars and keys of TOML

Readers of what stands at the start of a text.  Each gives what it has read with
what is left of the text, or nothing if the text does not start that way.

Strings come in four forms: between double quotes, with escapes; between single
quotes, as they stand; and either with three quotes, over several lines.  Line
ends are line feeds, with a carriage return before them or without.
-/

namespace ResourceStubs
namespace Toml

/-- A blank within a line. -/
def isSpace (c : Char) : Bool :=
  c == ' ' || c == '\t'

/-- Past the blanks at the start. -/
def skipSpaces (cs : List Char) : List Char :=
  cs.dropWhile isSpace

/-- A character that may stand in comments and strings: no control character but
the tab. -/
def isContent (c : Char) : Bool :=
  c == '\t' || (0x20 ≤ c.toNat && c.toNat ≠ 0x7f)

/-- Past a line end at the start. -/
def afterLineEnd? : List Char → Option (List Char)
  | '\n' :: rest => some rest
  | '\r' :: '\n' :: rest => some rest
  | _ => none

/-- Past a comment at the start, if there is one. -/
def skipComment : List Char → List Char
  | '#' :: rest => rest.dropWhile isContent
  | cs => cs

/-- Past the end of a line: blanks, a comment, and the line end or the end of the
text. -/
def endOfLine? (cs : List Char) : Option (List Char) :=
  match skipComment (skipSpaces cs) with
  | [] => some []
  | cs => afterLineEnd? cs

/-! ## Strings -/

/-- The number that hexadecimal digits denote. -/
def hexNumber? (digits : List Char) : Option Nat :=
  digits.foldlM
    (fun n c =>
      if '0' ≤ c ∧ c ≤ '9' then some (16 * n + (c.toNat - '0'.toNat))
      else if 'a' ≤ c ∧ c ≤ 'f' then some (16 * n + (c.toNat - 'a'.toNat + 10))
      else if 'A' ≤ c ∧ c ≤ 'F' then some (16 * n + (c.toNat - 'A'.toNat + 10))
      else none) 0

/-- The character that a number of hexadecimal digits stands for. -/
def codePoint? (width : Nat) (cs : List Char) : Option (Char × List Char) := do
  let n ← hexNumber? (cs.take width)
  if (cs.take width).length = width ∧ n.isValidChar then
    return (Char.ofNat n, cs.drop width)
  none

/-- The character of an escape, from what follows the backslash. -/
def escape? : List Char → Option (Char × List Char)
  | 'b' :: cs => some ('\x08', cs)
  | 't' :: cs => some ('\t', cs)
  | 'n' :: cs => some ('\n', cs)
  | 'f' :: cs => some ('\x0c', cs)
  | 'r' :: cs => some ('\r', cs)
  | '"' :: cs => some ('"', cs)
  | '\\' :: cs => some ('\\', cs)
  | 'u' :: cs => codePoint? 4 cs
  | 'U' :: cs => codePoint? 8 cs
  | _ => none

/-- Past blanks and line ends. -/
def skipBlankLines : List Char → List Char
  | ' ' :: rest | '\t' :: rest | '\n' :: rest | '\r' :: '\n' :: rest => skipBlankLines rest
  | cs => cs

/-- Past the blanks and line ends after a backslash at the end of a line. -/
def afterContinuation? (cs : List Char) : Option (List Char) :=
  (afterLineEnd? (skipSpaces cs)).map skipBlankLines

/-- The rest of a string on one line, up to its quote. -/
def shortString? (quote : Char) (text : List Char) (cs : List Char) :
    Option (List Char × List Char) :=
  match cs with
  | [] => none
  | c :: rest =>
      if c = quote then some (text.reverse, rest)
      else if c = '\\' ∧ quote = '"' then
        match escape? rest with
        | none => none
        | some (escaped, after) =>
            if _h : after.length < (c :: rest).length then
              shortString? quote (escaped :: text) after
            else none
      else if isContent c then shortString? quote (c :: text) rest
      else none
termination_by cs.length
decreasing_by
  · exact _h
  · simp

/-- The quotes at the start of a text, at most five. -/
def quoteRun (quote : Char) (cs : List Char) : Nat :=
  ((cs.take 5).takeWhile (· == quote)).length

/-- The rest of a string over several lines.  It ends at the first three quotes;
one or two right before them belong to the string. -/
def longString? (quote : Char) (text : List Char) (cs : List Char) :
    Option (List Char × List Char) :=
  match cs with
  | [] => none
  | c :: rest =>
      if c = quote then
        let quotes := quoteRun quote (c :: rest)
        if 3 ≤ quotes then
          some (text.reverse ++ List.replicate (quotes - 3) quote, (c :: rest).drop quotes)
        else longString? quote (c :: text) rest
      else if c = '\\' ∧ quote = '"' then
        match (afterContinuation? rest).map (([], ·)) <|>
            (escape? rest).map (fun (escaped, after) => ([escaped], after)) with
        | none => none
        | some (escaped, after) =>
            if _h : after.length < (c :: rest).length then
              longString? quote (escaped ++ text) after
            else none
      else match afterLineEnd? (c :: rest) with
        | some after =>
            if _h : after.length < (c :: rest).length then longString? quote ('\n' :: text) after
            else none
        | none => if isContent c then longString? quote (c :: text) rest else none
termination_by cs.length
decreasing_by
  · simp
  · exact _h
  · exact _h
  · simp

/-- A string at the start of a text. -/
def string? (cs : List Char) : Option (String × List Char) :=
  match cs with
  | a :: b :: c :: rest =>
      if (a = '"' ∨ a = '\'') ∧ a = b ∧ b = c then
        (longString? a [] ((afterLineEnd? rest).getD rest)).map fun (text, after) =>
          (String.ofList text, after)
      else shortOnly cs
  | cs => shortOnly cs
where
  shortOnly : List Char → Option (String × List Char)
    | quote :: rest =>
        if quote = '"' ∨ quote = '\'' then
          (shortString? quote [] rest).map fun (text, after) => (String.ofList text, after)
        else none
    | [] => none

/-! ## Keys -/

/-- A character of a key without quotes. -/
def isBareKeyChar (c : Char) : Bool :=
  c.isAlphanum || c == '-' || c == '_'

/-- One key: a word, or a string on one line. -/
def simpleKey? (cs : List Char) : Option (String × List Char) :=
  match cs with
  | '"' :: _ | '\'' :: _ => string?.shortOnly cs
  | cs =>
      let word := cs.takeWhile isBareKeyChar
      if word.isEmpty then none else some (String.ofList word, cs.dropWhile isBareKeyChar)

/-- Keys with dots between them. -/
def keyPath? (cs : List Char) : Option (List String × List Char) :=
  match simpleKey? cs with
  | none => none
  | some (key, after) =>
      match skipSpaces after with
      | '.' :: rest =>
          let next := skipSpaces rest
          if next.length < cs.length then
            (keyPath? next).map fun (keys, after) => (key :: keys, after)
          else none
      | _ => some ([key], after)
termination_by cs.length

/-! ## Numbers -/

/-- Past digits of a kind, with single underscores between two of them. -/
def afterDigits? (isDigit : Char → Bool) : List Char → Option (List Char)
  | [] => none
  | c :: rest =>
      if isDigit c then
        match rest with
        | '_' :: d :: more => if isDigit d then afterDigits? isDigit (d :: more) else some rest
        | d :: more => if isDigit d then afterDigits? isDigit (d :: more) else some rest
        | [] => some []
      else none
termination_by cs => cs.length

/-- A digit of a number in base two. -/
def isBinaryDigit (c : Char) : Bool := c == '0' || c == '1'

/-- A digit of a number in base eight. -/
def isOctalDigit (c : Char) : Bool := '0' ≤ c && c ≤ '7'

/-- A digit of a number in base sixteen. -/
def isHexDigit (c : Char) : Bool :=
  c.isDigit || ('a' ≤ c && c ≤ 'f') || ('A' ≤ c && c ≤ 'F')

/-- The value of a digit in any of the bases. -/
def digitValue (c : Char) : Nat :=
  if c.isDigit then c.toNat - '0'.toNat else c.toLower.toNat - 'a'.toNat + 10

/-- The number that digits denote; other characters do not count. -/
def numberOf (base : Nat) (digits : List Char) : Nat :=
  (digits.filter (· != '_')).foldl (fun n c => base * n + digitValue c) 0

/-- The characters between a text and what is left of it. -/
def before (cs rest : List Char) : List Char :=
  cs.take (cs.length - rest.length)

/-- Past a sign, if there is one, with whether it is a minus. -/
def skipSign : List Char → Bool × List Char
  | '-' :: rest => (true, rest)
  | '+' :: rest => (false, rest)
  | cs => (false, cs)

/-- Past the digits of a whole number in base ten without leading zeros. -/
def afterWhole? : List Char → Option (List Char)
  | '0' :: rest => some rest
  | cs => afterDigits? Char.isDigit cs

/-- The least number that 64 bits with a sign do not hold. -/
def integerBound : Nat := 0x8000000000000000

/-- Past an integer.  It has to be one that 64 bits hold. -/
def afterInteger? (cs : List Char) : Option (List Char) :=
  let based (base : Nat) (isDigit : Char → Bool) (digits : List Char) : Option (List Char) := do
    let rest ← afterDigits? isDigit digits
    if numberOf base (before digits rest) < integerBound then return rest else none
  match cs with
  | '0' :: 'x' :: digits => based 16 isHexDigit digits
  | '0' :: 'o' :: digits => based 8 isOctalDigit digits
  | '0' :: 'b' :: digits => based 2 isBinaryDigit digits
  | cs => do
      let (negative, digits) := skipSign cs
      let rest ← afterWhole? digits
      let n := numberOf 10 (before digits rest)
      if n < integerBound ∨ (negative ∧ n = integerBound) then return rest else none

/-- Past an exponent. -/
def afterExponent? : List Char → Option (List Char)
  | c :: rest =>
      if c = 'e' ∨ c = 'E' then afterDigits? Char.isDigit (skipSign rest).2 else none
  | [] => none

/-- The least number that is too large for a double.  It stands half a step above the
largest one. -/
def floatBound : Nat := Nat.pow 2 1024 - Nat.pow 2 970

/-- Is a number too large for a double?  `mantissa` is its text up to the exponent and
`exponent` the rest of it.  Digits are counted first, so that no power has to be formed
that is far from the bound. -/
def isTooLarge (mantissa exponent : List Char) : Bool :=
  let digits := (mantissa.filter Char.isDigit).dropWhile (· == '0')
  let places := ((mantissa.dropWhile (· != '.')).filter Char.isDigit).length
  let (negative, power) := skipSign (exponent.drop 1)
  let shift : Int := (if negative then -1 else 1) * (numberOf 10 power : Int) - places
  let width : Int := digits.length + shift
  if digits.isEmpty || width < 309 then false
  else if 309 < width then true
  else if 0 ≤ shift then floatBound ≤ numberOf 10 digits * Nat.pow 10 shift.toNat
  else floatBound * Nat.pow 10 (-shift).toNat ≤ numberOf 10 digits

/-- Past a number with a fraction or an exponent.  A number without a minus must not be
too large. -/
def afterFloat? (cs : List Char) : Option (List Char) := do
  let (negative, unsigned) := skipSign cs
  match unsigned with
  | 'i' :: 'n' :: 'f' :: rest => return rest
  | 'n' :: 'a' :: 'n' :: rest => return rest
  | _ =>
      let mantissaEnd ← match ← afterWhole? unsigned with
        | '.' :: fraction => afterDigits? Char.isDigit fraction
        | rest => some rest
      let mantissa := before unsigned mantissaEnd
      match afterExponent? mantissaEnd with
      | some rest =>
          if !negative && isTooLarge mantissa (before mantissaEnd rest) then none
          else return rest
      | none =>
          if mantissa.contains '.' && (negative || !isTooLarge mantissa []) then
            return mantissaEnd
          else none

/-! ## Dates -/

/-- A number of digits of a fixed width. -/
def fixedNumber? (width : Nat) (cs : List Char) : Option (Nat × List Char) :=
  let digits := cs.take width
  if digits.length = width ∧ digits.all Char.isDigit then
    some (digits.foldl (fun n c => 10 * n + (c.toNat - '0'.toNat)) 0, cs.drop width)
  else none

/-- Past a character. -/
def afterChar? (c : Char) : List Char → Option (List Char)
  | d :: rest => if c = d then some rest else none
  | [] => none

/-- The days of a month. -/
def daysOfMonth (year month : Nat) : Nat :=
  if month = 2 then
    if year % 4 = 0 ∧ (year % 100 ≠ 0 ∨ year % 400 = 0) then 29 else 28
  else if month ∈ [4, 6, 9, 11] then 30
  else 31

/-- Past a day such as `1979-05-27`. -/
def afterDay? (cs : List Char) : Option (List Char) := do
  let (year, cs) ← fixedNumber? 4 cs
  let (month, cs) ← fixedNumber? 2 (← afterChar? '-' cs)
  let (day, cs) ← fixedNumber? 2 (← afterChar? '-' cs)
  if 1 ≤ month ∧ month ≤ 12 ∧ 1 ≤ day ∧ day ≤ daysOfMonth year month then return cs else none

/-- Past a time such as `07:32:00.5`. -/
def afterTime? (cs : List Char) : Option (List Char) := do
  let (hour, cs) ← fixedNumber? 2 cs
  let (minute, cs) ← fixedNumber? 2 (← afterChar? ':' cs)
  let (second, cs) ← fixedNumber? 2 (← afterChar? ':' cs)
  if hour ≤ 23 ∧ minute ≤ 59 ∧ second ≤ 60 then
    match cs with
    | '.' :: c :: rest => return if c.isDigit then rest.dropWhile Char.isDigit else cs
    | cs => return cs
  else none

/-- Past an offset such as `Z` or `+02:00`. -/
def afterOffset? (cs : List Char) : Option (List Char) :=
  match cs with
  | 'Z' :: rest | 'z' :: rest => some rest
  | sign :: rest =>
      if sign = '+' ∨ sign = '-' then do
        let (hour, rest) ← fixedNumber? 2 rest
        let (minute, rest) ← fixedNumber? 2 (← afterChar? ':' rest)
        if hour ≤ 23 ∧ minute ≤ 59 then return rest else none
      else none
  | [] => none

/-- Past a day, a time, or both with or without an offset. -/
def afterDate? (cs : List Char) : Option (List Char) :=
  match afterDay? cs with
  | none => afterTime? cs
  | some rest =>
      match rest with
      | c :: time =>
          if c = 'T' ∨ c = 't' ∨ c = ' ' then
            match afterTime? time with
            | some rest => some ((afterOffset? rest).getD rest)
            | none => if c = ' ' then some rest else none
          else some rest
      | [] => some []

end Toml
end ResourceStubs
