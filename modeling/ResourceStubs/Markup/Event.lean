import ResourceStubs.Markup.Attributes
import ResourceStubs.Text.Search
import ResourceStubs.Text.LetterCase

/-!
# Markup as a sequence of events

`Markup.read` turns a document into the events that a reader meets from its start
to its end: a start tag, a tag that closes itself, an end tag, or something else
(text, a comment, a declaration).  If the document is broken somewhere, the
sequence ends there with the event `malformed`, so what is before the break can
still be looked at.

## How lenient the reader is

The reader wants little.  A name may be anything without blanks.  A tag runs to
the first `>` that is not inside quotes, or to the end of the document.  Elements
that are still open at the end are no fault, and there may be any number of roots.
An end tag has to name the innermost open element.  A comment ends at the first
`-->`, a section of character data at the first `]]>`, a document type at the `>`
that balances the brackets in it, and all three have to end.  Text is not looked
at.
-/

namespace ResourceStubs
namespace Markup

/-- A tag with its attributes. -/
structure Tag where
  name : String
  attributes : Attributes
  deriving DecidableEq, Repr

/-- What a reader of a document meets. -/
inductive Event where
  | opening (tag : Tag)
  | standalone (tag : Tag)
  | closing
  | other
  | malformed
  deriving DecidableEq, Repr

/-- The text before the next `>`, and the text behind it. -/
def untilBracket (cs : List Char) : List Char × List Char :=
  (cs.takeWhile (· != '>'), (cs.dropWhile (· != '>')).drop 1)

/-- The text of a tag, up to the first `>` outside quotes, and the text behind
it.  `quote` is the quote that is open. -/
def untilTagEnd (quote : Option Char) : List Char → List Char × List Char
  | [] => ([], [])
  | c :: cs =>
      match quote with
      | some q =>
          let (body, rest) := untilTagEnd (if c = q then none else some q) cs
          (c :: body, rest)
      | none =>
          if c = '>' then ([], cs)
          else
            let (body, rest) :=
              untilTagEnd (if c = '"' ∨ c = '\'' then some c else none) cs
            (c :: body, rest)

/-- What follows a document type, inside which `depth` brackets are open. -/
def afterDoctype? (depth : Nat) : List Char → Option (List Char)
  | [] => none
  | c :: cs =>
      if c = '<' then afterDoctype? (depth + 1) cs
      else if c = '>' then
        match depth with
        | 0 => some cs
        | depth + 1 => afterDoctype? depth cs
      else afterDoctype? depth cs

/-- What follows a keyword at the start of the text, in any letter case. -/
def afterKeyword? (keyword cs : List Char) : Option (List Char) :=
  if (cs.take keyword.length).map Char.toUpper = keyword then some (cs.drop keyword.length)
  else none

/-- Does a document type have anything in it before its end? -/
def hasDoctypeContent (cs : List Char) : Bool :=
  match cs.dropWhile isSpace with
  | [] => false
  | c :: _ => c != '>'

/-- What follows the markup that begins with `<!`, where `cs` is the text behind
these two characters. -/
def afterDeclaration? (cs : List Char) : Option (List Char) :=
  match cs with
  | '-' :: '-' :: body => (Text.cutFirst? ['-', '-', '>'] body).map Prod.snd
  | '[' :: _ => do
      let body ← afterKeyword? "[CDATA[".toList cs
      let (_, rest) ← Text.cutFirst? [']', ']', '>'] body
      return rest
  | _ => do
      let body ← afterKeyword? "DOCTYPE".toList cs
      if hasDoctypeContent body then afterDoctype? 0 body else none

/-- What follows the markup that begins with `<?`, where `cs` is the text behind
these two characters.  It has to have two characters at least and to end with a
question mark. -/
def afterInstruction? (cs : List Char) : Option (List Char) :=
  let (body, rest) := untilBracket cs
  if 2 ≤ body.length ∧ body.getLast? = some '?' then some rest else none

/-- The name in an end tag: the text less the blanks behind it.  If there is
nothing but blanks they are the name. -/
def closingName (body : List Char) : List Char :=
  match body.reverse.dropWhile isSpace with
  | [] => body
  | c :: cs => (c :: cs).reverse

/-- The name at the start of a tag, and the text behind it. -/
def splitTag (body : List Char) : List Char × List Char :=
  (body.takeWhile fun c => !isSpace c, body.dropWhile fun c => !isSpace c)

/-- A tag that closes itself, less the slash at its end. -/
def standaloneBody? (body : List Char) : Option (List Char) :=
  if body.getLast? = some '/' then some body.dropLast else none

/-- The tag with the given text. -/
def tagOfBody? (body : List Char) : Option Tag :=
  let (name, rest) := splitTag body
  (Attributes.ofChars? rest).map fun attributes => ⟨String.ofList name, attributes⟩

theorem length_untilBracket_le (cs : List Char) : (untilBracket cs).2.length ≤ cs.length := by
  have := (List.dropWhile_sublist (l := cs) (· != '>')).length_le
  simp only [untilBracket, List.length_drop]
  omega

theorem length_untilTagEnd_le (quote : Option Char) (cs : List Char) :
    (untilTagEnd quote cs).2.length ≤ cs.length := by
  induction cs generalizing quote with
  | nil => simp [untilTagEnd]
  | cons c cs ih =>
    cases quote with
    | some q =>
      have := ih (if c = q then none else some q)
      simp only [untilTagEnd, List.length_cons]
      omega
    | none =>
      have := ih (if c = '"' ∨ c = '\'' then some c else none)
      simp only [untilTagEnd]
      split
      · simp
      · simp only [List.length_cons]
        omega

theorem length_afterDoctype?_lt {depth : Nat} {cs rest : List Char}
    (h : afterDoctype? depth cs = some rest) : rest.length < cs.length := by
  induction cs generalizing depth with
  | nil => simp [afterDoctype?] at h
  | cons c cs ih =>
    simp only [afterDoctype?] at h
    simp only [List.length_cons]
    split at h
    · have := ih h
      omega
    · split at h
      · split at h
        · simp_all
        · have := ih h
          omega
      · have := ih h
        omega

theorem length_afterKeyword?_le {keyword cs rest : List Char}
    (h : afterKeyword? keyword cs = some rest) : rest.length ≤ cs.length := by
  unfold afterKeyword? at h
  split at h
  · simp only [Option.some.injEq] at h
    simp only [← h, List.length_drop]
    omega
  · simp at h

theorem length_afterDeclaration?_le {cs rest : List Char}
    (h : afterDeclaration? cs = some rest) : rest.length ≤ cs.length := by
  unfold afterDeclaration? at h
  split at h
  · obtain ⟨⟨before, after⟩, hcut, rfl⟩ := Option.map_eq_some_iff.1 h
    have := Text.length_lt_of_cutFirst? (by simp) hcut
    simp only [List.length_cons]
    omega
  · obtain ⟨body, hbody, h⟩ := Option.bind_eq_some_iff.1 h
    obtain ⟨⟨before, after⟩, hcut, h⟩ := Option.bind_eq_some_iff.1 h
    have h1 := length_afterKeyword?_le hbody
    have h2 := Text.length_lt_of_cutFirst? (by simp) hcut
    simp only [pure, Option.some.injEq] at h
    subst h
    omega
  · obtain ⟨body, hbody, h⟩ := Option.bind_eq_some_iff.1 h
    have h1 := length_afterKeyword?_le hbody
    split at h
    · have := length_afterDoctype?_lt h
      omega
    · simp at h

theorem length_afterInstruction?_le {cs rest : List Char}
    (h : afterInstruction? cs = some rest) : rest.length ≤ cs.length := by
  have := length_untilBracket_le cs
  simp only [afterInstruction?] at h
  split at h
  · simp only [Option.some.injEq] at h
    subst h
    exact this
  · simp at h

/-- The events of the text, where `names` are the elements that are open, the
innermost first. -/
def readFrom (names : List (List Char)) (cs : List Char) : List Event :=
  match cs with
  | [] => []
  | '<' :: '!' :: rest =>
      match _h : afterDeclaration? rest with
      | some rest => .other :: readFrom names rest
      | none => [.malformed]
  | '<' :: '?' :: rest =>
      match _h : afterInstruction? rest with
      | some rest => .other :: readFrom names rest
      | none => [.malformed]
  | '<' :: '/' :: rest =>
      match names with
      | [] => [.malformed]
      | name :: names =>
          if closingName (untilBracket rest).1 = name then
            .closing :: readFrom names (untilBracket rest).2
          else [.malformed]
  | ['<'] => []
  | '<' :: rest =>
      let body := (untilTagEnd none rest).1
      match standaloneBody? body with
      | some body =>
          match tagOfBody? body with
          | some tag => .standalone tag :: readFrom names (untilTagEnd none rest).2
          | none => [.malformed]
      | none =>
          match tagOfBody? body with
          | some tag =>
              .opening tag :: readFrom ((splitTag body).1 :: names) (untilTagEnd none rest).2
          | none => [.malformed]
  | _ :: rest => .other :: readFrom names (rest.dropWhile (· != '<'))
termination_by cs.length
decreasing_by
  · have := length_afterDeclaration?_le _h
    simp only [List.length_cons]
    omega
  · have := length_afterInstruction?_le _h
    simp only [List.length_cons]
    omega
  · have := length_untilBracket_le rest
    simp only [List.length_cons]
    omega
  · have := length_untilTagEnd_le none rest
    simp only [List.length_cons]
    omega
  · have := length_untilTagEnd_le none rest
    simp only [List.length_cons]
    omega
  · have := (List.dropWhile_sublist (l := rest) (· != '<')).length_le
    simp only [List.length_cons]
    omega

/-- The text less a byte order mark at its start. -/
def withoutByteOrderMark (cs : List Char) : List Char :=
  match cs with
  | '\uFEFF' :: rest => rest
  | cs => cs

/-- The events of a document. -/
def read (document : String) : List Event :=
  readFrom [] (withoutByteOrderMark document.toList)

/-- The tags that a document starts or holds, in order, and whether it is whole,
that is, not broken somewhere. -/
structure TagSequence where
  tags : List Tag
  whole : Bool
  deriving DecidableEq, Repr

/-- The start tags and the self-closing tags among events. -/
def tagsOf : List Event → TagSequence
  | [] => ⟨[], true⟩
  | .opening tag :: rest => { tagsOf rest with tags := tag :: (tagsOf rest).tags }
  | .standalone tag :: rest => { tagsOf rest with tags := tag :: (tagsOf rest).tags }
  | .closing :: rest => tagsOf rest
  | .other :: rest => tagsOf rest
  | .malformed :: _ => ⟨[], false⟩

end Markup
end ResourceStubs
