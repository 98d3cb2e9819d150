import ResourceStubs.Toml.Scalar
import ResourceStubs.Toml.Value

/-!
# Reading TOML

A document is read line by line: a key with its value, a header that opens a
table, or nothing.  Arrays may go over several lines and may have comments in
them; a table in braces stays on its line.  What a line adds is added at once, so
a key or a header that is not allowed where it stands ends the reading there.
-/

namespace ResourceStubs
namespace Toml

/-- What a reader has read, with fewer characters than `cs` left over. -/
abbrev Shorter (α : Type) (cs : List Char) : Type :=
  α × { rest : List Char // rest.length < cs.length }

/-- A reading that takes nothing from the text is no reading. -/
def shorter? (cs : List Char) : Option (α × List Char) → Option (Shorter α cs)
  | some (a, rest) => if h : rest.length < cs.length then some (a, ⟨rest, h⟩) else none
  | none => none

/-- Past blanks, line ends and comments. -/
def skipLines (cs : List Char) : { rest : List Char // rest.length ≤ cs.length } :=
  let after := skipComment (skipSpaces cs)
  match afterLineEnd? after with
  | some rest =>
      if h : rest.length < cs.length then
        let ⟨last, hl⟩ := skipLines rest
        ⟨last, Nat.le_of_lt (Nat.lt_of_le_of_lt hl h)⟩
      else ⟨cs, Nat.le_refl _⟩
  | none => if h : after.length ≤ cs.length then ⟨after, h⟩ else ⟨cs, Nat.le_refl _⟩
termination_by cs.length

/-- A value that is not made of others. -/
def scalar? (cs : List Char) : Option (Value × List Char) :=
  match cs with
  | '"' :: _ | '\'' :: _ => (string? cs).map fun (text, rest) => (.string text, rest)
  | 't' :: 'r' :: 'u' :: 'e' :: rest => some (.boolean true, rest)
  | 'f' :: 'a' :: 'l' :: 's' :: 'e' :: rest => some (.boolean false, rest)
  | cs =>
      (afterDate? cs).map (.date, ·) <|> (afterFloat? cs).map (.number, ·) <|>
        (afterInteger? cs).map (.number, ·)

theorem length_skipSpaces_le (cs : List Char) : (skipSpaces cs).length ≤ cs.length :=
  (List.dropWhile_sublist _).length_le

/-- Past the blanks at the start, with the reason why that is no more text. -/
def pastSpaces (cs : List Char) : { rest : List Char // rest.length ≤ cs.length } :=
  ⟨skipSpaces cs, length_skipSpaces_le cs⟩

/-- Past an equals sign. -/
def pastEquals? : (cs : List Char) → Option { rest : List Char // rest.length < cs.length }
  | '=' :: rest => some ⟨rest, Nat.lt_succ_self _⟩
  | _ => none

/-- Past what follows a part of a value: a comma, or the closing bracket.  Says whether
it is a comma. -/
def separator? (closing : Char) : (cs : List Char) → Option (Shorter Bool cs)
  | [] => none
  | c :: rest =>
      if c = ',' then some (true, ⟨rest, Nat.lt_succ_self _⟩)
      else if c = closing then some (false, ⟨rest, Nat.lt_succ_self _⟩)
      else none

mutual

/-- The value at the start of a text. -/
def value? (cs : List Char) : Option (Shorter Value cs) :=
  match cs with
  | '[' :: rest => do
      let ⟨inner, hi⟩ := skipLines rest
      let (items, ⟨after, ha⟩) ← items? [] inner
      return (.array items, ⟨after, by simp only [List.length_cons]; omega⟩)
  | '\x7b' :: rest => do
      let ⟨inner, hi⟩ := pastSpaces rest
      let (entries, ⟨after, ha⟩) ← members? true [] inner
      return (.table .braces entries, ⟨after, by simp only [List.length_cons]; omega⟩)
  | cs => shorter? cs (scalar? cs)
termination_by 2 * cs.length
decreasing_by all_goals simp only [List.length_cons]; omega

/-- The items of an array up to its closing bracket. -/
def items? (items : List Value) (cs : List Char) : Option (Shorter (List Value) cs) :=
  match cs with
  | ']' :: rest => some (items, ⟨rest, Nat.lt_succ_self _⟩)
  | cs => do
      let (v, ⟨afterValue, hv⟩) ← value? cs
      let ⟨afterSpaces, hs⟩ := skipLines afterValue
      let (more, ⟨rest, hr⟩) ← separator? ']' afterSpaces
      if more then
        let ⟨next, hn⟩ := skipLines rest
        let (all, ⟨last, hl⟩) ← items? (items ++ [v]) next
        return (all, ⟨last, by omega⟩)
      else return (items ++ [v], ⟨rest, by omega⟩)
termination_by 2 * cs.length + 1
decreasing_by all_goals omega

/-- The members of a table in braces up to its closing brace, which may stand in the
place of the first of them. -/
def members? (first : Bool) (entries : Entries) (cs : List Char) :
    Option (Shorter Entries cs) :=
  match cs with
  | '\x7d' :: rest => if first then some (entries, ⟨rest, Nat.lt_succ_self _⟩) else none
  | cs => do
      let (path, ⟨afterKey, hk⟩) ← shorter? cs (keyPath? cs)
      let ⟨atEquals, he⟩ := pastSpaces afterKey
      let ⟨afterEquals, hq⟩ ← pastEquals? atEquals
      let ⟨start, ht⟩ := pastSpaces afterEquals
      let (v, ⟨afterValue, hv⟩) ← value? start
      let entries ← addKey .header path v entries
      let ⟨afterSpaces, hs⟩ := pastSpaces afterValue
      let (more, ⟨rest, hr⟩) ← separator? '\x7d' afterSpaces
      if more then
        let ⟨next, hn⟩ := pastSpaces rest
        let (all, ⟨last, hl⟩) ← members? false entries next
        return (all, ⟨last, by omega⟩)
      else return (entries, ⟨rest, by omega⟩)
termination_by 2 * cs.length
decreasing_by all_goals omega

end

/-- What has been read of a document: the table at its root, and the path of the
table that the last header opened. -/
structure State where
  root : Entries := []
  header : List String := []

/-- Reads a header, where `cs` is what follows its brackets. -/
def header? (brackets : List Char) (openIt : List String → Entries → Option Entries)
    (s : State) (cs : List Char) : Option (State × List Char) := do
  let (path, rest) ← keyPath? (skipSpaces cs)
  let rest := skipSpaces rest
  if rest.take brackets.length = brackets then
    let root ← openIt path s.root
    return ({ root, header := path }, rest.drop brackets.length)
  none

/-- Reads what a line begins with. -/
def statement? (s : State) (cs : List Char) : Option (State × List Char) :=
  match cs with
  | '[' :: '[' :: rest => header? [']', ']'] openTables s rest
  | '[' :: rest => header? [']'] openTable s rest
  | cs => do
      let (path, rest) ← keyPath? cs
      let rest ← afterChar? '=' (skipSpaces rest)
      let (v, ⟨rest, _⟩) ← value? (skipSpaces rest)
      let root ← addBelow s.header path v s.root
      return ({ s with root }, rest)

/-- Is there nothing on a line before its comment or its end? -/
def isIdleLine (cs : List Char) : Bool :=
  match skipSpaces cs with
  | [] => true
  | c :: _ => c == '#' || c == '\n' || c == '\r'

/-- Reads one line. -/
def line? (s : State) (cs : List Char) : Option (State × List Char) := do
  if isIdleLine cs then return (s, ← endOfLine? cs)
  else
    let (s, rest) ← statement? s (skipSpaces cs)
    return (s, ← endOfLine? rest)

/-- Reads the lines of a text. -/
def lines? (s : State) (cs : List Char) : Option State :=
  if cs.isEmpty then some s
  else match line? s cs with
    | none => none
    | some (s, rest) => if rest.length < cs.length then lines? s rest else none
termination_by cs.length

/-- The table that a document is. -/
def read? (document : String) : Option Entries :=
  let cs := match document.toList with
    | '\uFEFF' :: cs => cs
    | cs => cs
  (lines? {} cs).map State.root

end Toml
end ResourceStubs
