/-!
# Character references

An attribute value may write a character as a reference: `&lt;` and four more by
name, `&#60;` in decimal and `&#x3c;` in hexadecimal.  A reference runs from an
ampersand to the next semicolon, and no further ampersand may come before it.
Numbers are short: seven decimal or six hexadecimal digits reach every character,
and a longer number is refused even where leading zeros make it so.  Zero is no
character here.
-/

namespace ResourceStubs
namespace Markup

/-- The value of a digit in a base up to sixteen. -/
def digitValue? (base : Nat) (c : Char) : Option Nat :=
  let value :=
    if '0' ≤ c ∧ c ≤ '9' then some (c.toNat - '0'.toNat)
    else if 'a' ≤ c ∧ c ≤ 'f' then some (c.toNat - 'a'.toNat + 10)
    else if 'A' ≤ c ∧ c ≤ 'F' then some (c.toNat - 'A'.toNat + 10)
    else none
  value.filter (· < base)

/-- The number that digits denote in a base; `n` is the number so far. -/
def digitsValue? (base : Nat) : Nat → List Char → Option Nat
  | n, [] => some n
  | n, c :: cs =>
      match digitValue? base c with
      | some d => digitsValue? base (base * n + d) cs
      | none => none

/-- The character with a code point, if it is one and not zero. -/
def charOfCodePoint? (n : Nat) : Option Char :=
  if n ≠ 0 ∧ n.isValidChar then some (Char.ofNat n) else none

/-- The character with the given digits as its number. -/
def charOfDigits? (base limit : Nat) (digits : List Char) : Option Char :=
  if digits.length ≤ limit then (digitsValue? base 0 digits).bind charOfCodePoint? else none

/-- The character that a reference stands for, from what is between the
ampersand and the semicolon. -/
def referredChar? (name : List Char) : Option Char :=
  match name with
  | '#' :: 'x' :: digits => charOfDigits? 16 6 digits
  | '#' :: digits => charOfDigits? 10 7 digits
  | ['l', 't'] => some '<'
  | ['g', 't'] => some '>'
  | ['a', 'm', 'p'] => some '&'
  | ['q', 'u', 'o', 't'] => some '"'
  | ['a', 'p', 'o', 's'] => some '\''
  | _ => none

/-- Does the character end the name of a reference? -/
def endsReference (c : Char) : Bool :=
  c == '&' || c == ';'

/-- The text with every reference replaced by its character, unless one of them
stands for none. -/
def decodeReferences? : List Char → Option (List Char)
  | [] => some []
  | c :: cs =>
      if c = '&' then
        match _h : cs.dropWhile (fun c => !endsReference c) with
        | ';' :: rest => do
            let referred ← referredChar? (cs.takeWhile fun c => !endsReference c)
            let decoded ← decodeReferences? rest
            return referred :: decoded
        | _ => none
      else (decodeReferences? cs).map (c :: ·)
termination_by cs => cs.length
decreasing_by
  · have := (List.dropWhile_sublist (l := cs) fun c => !endsReference c).length_le
    rw [_h] at this
    simp only [List.length_cons] at *
    omega
  · simp

end Markup
end ResourceStubs
