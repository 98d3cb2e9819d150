import ResourceStubs.Markup.Reference

/-!
# Attributes of a tag

What follows the name of a tag is a list of attributes, `key="value"` with either
quote.  Blanks may stand before a key and around the equals sign, and nothing
needs to stand between two attributes.  A key is anything up to an equals sign or
a blank, and its first character may even be an equals sign.  A value is anything
up to the closing quote; references in it are decoded.

Reading fails as a whole if any attribute is broken or if a key comes twice, for
the order of attributes is kept and no later one may shadow an earlier one.
-/

namespace ResourceStubs
namespace Markup

/-- The blanks of markup: space, tab, carriage return and line feed. -/
def isSpace (c : Char) : Bool :=
  c == ' ' || c == '\t' || c == '\r' || c == '\n'

/-- The attributes of a tag in the order of the document. -/
structure Attributes where
  entries : List (String × String)
  deriving DecidableEq, Repr

namespace Attributes

/-- The value of a key. -/
def get? (attributes : Attributes) (key : String) : Option String :=
  attributes.entries.lookup key

/-- The number of attributes. -/
def size (attributes : Attributes) : Nat :=
  attributes.entries.length

/-- Is there no attribute at all? -/
def isEmpty (attributes : Attributes) : Bool :=
  attributes.entries.isEmpty

end Attributes

/-- One attribute as it is written, and what follows it. -/
structure RawAttribute where
  key : List Char
  value : List Char
  rest : List Char

/-- Does the character end a key? -/
def endsKey (c : Char) : Bool :=
  c == '=' || isSpace c

/-- The quoted value at the start of the text, and what follows the closing
quote. -/
def quotedValue? : List Char → Option (List Char × List Char)
  | [] => none
  | quote :: body =>
      if quote = '"' ∨ quote = '\'' then
        match body.dropWhile (· != quote) with
        | [] => none
        | _ :: rest => some (body.takeWhile (· != quote), rest)
      else none

/-- The attribute whose key starts with `first` and goes on in `cs`. -/
def rawAttribute? (first : Char) (cs : List Char) : Option RawAttribute :=
  match (cs.dropWhile fun c => !endsKey c).dropWhile isSpace with
  | '=' :: after =>
      (quotedValue? (after.dropWhile isSpace)).map fun (value, rest) =>
        ⟨first :: cs.takeWhile fun c => !endsKey c, value, rest⟩
  | _ => none

theorem length_quotedValue? {cs value rest : List Char}
    (h : quotedValue? cs = some (value, rest)) : rest.length < cs.length := by
  unfold quotedValue? at h
  split at h
  · simp at h
  · rename_i quote body
    split at h
    · split at h
      · simp at h
      · rename_i d ds hdrop
        have := (List.dropWhile_sublist (l := body) (· != quote)).length_le
        simp only [Option.some.injEq, Prod.mk.injEq] at h
        rw [hdrop] at this
        simp only [List.length_cons, ← h.2] at *
        omega
    · simp at h

theorem length_rawAttribute? {first : Char} {cs : List Char} {a : RawAttribute}
    (h : rawAttribute? first cs = some a) : a.rest.length < cs.length := by
  unfold rawAttribute? at h
  split at h
  · rename_i after hafter
    obtain ⟨⟨value, rest⟩, hquoted, rfl⟩ := Option.map_eq_some_iff.1 h
    have h1 := length_quotedValue? hquoted
    have h2 := (List.dropWhile_sublist (l := after) isSpace).length_le
    have h3 := (List.dropWhile_sublist (l := cs) fun c => !endsKey c).length_le
    have h4 := (List.dropWhile_sublist
      (l := cs.dropWhile fun c => !endsKey c) isSpace).length_le
    rw [hafter] at h4
    simp only [List.length_cons] at h4
    simp only
    omega
  · simp at h

theorem length_lt_of_dropWhile_eq_cons {p : Char → Bool} {cs rest : List Char} {c : Char}
    (h : cs.dropWhile p = c :: rest) : rest.length < cs.length := by
  have := (List.dropWhile_sublist (l := cs) p).length_le
  rw [h] at this
  simp only [List.length_cons] at this
  omega

/-- The attributes in the text, given the keys that came before. -/
def readAttributes? (seen : List (List Char)) (cs : List Char) :
    Option (List (String × String)) :=
  match _h : cs.dropWhile isSpace with
  | [] => some []
  | first :: rest =>
      match _hraw : rawAttribute? first rest with
      | none => none
      | some a =>
          if a.key ∈ seen then none
          else do
            let value ← decodeReferences? a.value
            let others ← readAttributes? (a.key :: seen) a.rest
            return (String.ofList a.key, String.ofList value) :: others
termination_by cs.length
decreasing_by
  have h1 := length_rawAttribute? _hraw
  have h2 := length_lt_of_dropWhile_eq_cons _h
  omega

/-- The attributes that follow the name of a tag. -/
def Attributes.ofChars? (cs : List Char) : Option Attributes :=
  (readAttributes? [] cs).map Attributes.mk

end Markup
end ResourceStubs
