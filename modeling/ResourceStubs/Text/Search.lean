/-!
# Finding a pattern in a text

Cutting a text at the first or last place where a pattern stands, cutting it at
every such place, and replacing them.  Occurrences are taken from the left and
never overlap.  All functions work on lists of characters; the pattern is read
as it stands.
-/

namespace ResourceStubs
namespace Text

/-- What follows `pattern` at the start of the text, if it stands there. -/
def afterStart? : (pattern text : List Char) → Option (List Char)
  | [], text => some text
  | _ :: _, [] => none
  | p :: ps, c :: cs => if p = c then afterStart? ps cs else none

theorem afterStart?_eq_some_iff {pattern text rest : List Char} :
    afterStart? pattern text = some rest ↔ text = pattern ++ rest := by
  induction pattern generalizing text with
  | nil => simp [afterStart?, eq_comm]
  | cons p ps ih =>
    cases text with
    | nil => simp [afterStart?]
    | cons c cs =>
      by_cases h : p = c
      · simp [afterStart?, h, ih]
      · simp [afterStart?, h, Ne.symm h]

/-- Does the text begin with the pattern? -/
def startsWith (pattern text : List Char) : Bool :=
  (afterStart? pattern text).isSome

/-- Does the text end with the pattern? -/
def endsWith (pattern text : List Char) : Bool :=
  startsWith pattern.reverse text.reverse

/-- The text before and after the first occurrence of the pattern. -/
def cutFirst? (pattern : List Char) : List Char → Option (List Char × List Char)
  | [] => if pattern.isEmpty then some ([], []) else none
  | c :: cs =>
      match afterStart? pattern (c :: cs) with
      | some rest => some ([], rest)
      | none => (cutFirst? pattern cs).map fun (before, after) => (c :: before, after)

/-- A cut loses the pattern and nothing else. -/
theorem eq_of_cutFirst?_eq_some {pattern text before after : List Char}
    (h : cutFirst? pattern text = some (before, after)) :
    text = before ++ pattern ++ after := by
  induction text generalizing before with
  | nil => simp_all [cutFirst?]
  | cons c cs ih =>
    rw [cutFirst?] at h
    split at h
    · rename_i rest heq
      simp only [Option.some.injEq, Prod.mk.injEq] at h
      obtain ⟨rfl, rfl⟩ := h
      simpa using afterStart?_eq_some_iff.1 heq
    · obtain ⟨⟨b, a⟩, hcut, heq⟩ := Option.map_eq_some_iff.1 h
      simp only [Prod.mk.injEq] at heq
      obtain ⟨rfl, rfl⟩ := heq
      simp [ih hcut]

/-- The text before and after the last occurrence of the pattern. -/
def cutLast? (pattern text : List Char) : Option (List Char × List Char) :=
  (cutFirst? pattern.reverse text.reverse).map fun (after, before) =>
    (before.reverse, after.reverse)

/-- Does the pattern occur in the text? -/
def occursIn (pattern text : List Char) : Bool :=
  (cutFirst? pattern text).isSome

/-- The text before the first occurrence of the pattern, or all of it. -/
def beforeFirst (pattern text : List Char) : List Char :=
  match cutFirst? pattern text with
  | some (before, _) => before
  | none => text

/-- The text after the last occurrence of the pattern, or all of it. -/
def afterLast (pattern text : List Char) : List Char :=
  match cutLast? pattern text with
  | some (_, after) => after
  | none => text

/-- The pieces between the separators. -/
def pieces (separator : Char) : List Char → List (List Char)
  | [] => [[]]
  | c :: cs =>
      if c = separator then [] :: pieces separator cs
      else match pieces separator cs with
        | piece :: rest => (c :: piece) :: rest
        | [] => [[c]]

/-- A text has at least one piece. -/
theorem pieces_ne_nil (separator : Char) (cs : List Char) : pieces separator cs ≠ [] := by
  cases cs with
  | nil => simp [pieces]
  | cons c cs =>
    rw [pieces]
    split
    · simp
    · split <;> simp

theorem length_lt_of_cutFirst? {pattern text before after : List Char}
    (hne : pattern ≠ []) (h : cutFirst? pattern text = some (before, after)) :
    after.length < text.length := by
  have heq := eq_of_cutFirst?_eq_some h
  have hpos : 0 < pattern.length := List.length_pos_iff.2 hne
  simp only [heq, List.length_append]
  omega

/-- The pieces between the occurrences of a pattern that is not empty; with the
empty pattern, the text itself. -/
def splitOn (pattern text : List Char) : List (List Char) :=
  if _hne : pattern = [] then [text]
  else match _h : cutFirst? pattern text with
    | none => [text]
    | some (before, after) => before :: splitOn pattern after
termination_by text.length
decreasing_by exact length_lt_of_cutFirst? _hne _h

/-- Every occurrence of the pattern replaced. -/
def replaceAll (pattern replacement text : List Char) : List Char :=
  replacement.intercalate (splitOn pattern text)

end Text
end ResourceStubs
