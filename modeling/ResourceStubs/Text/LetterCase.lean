import ResourceStubs.Text.CaseTable

/-!
# Letter case

The full case mapping of a single character, which may have several characters:
`ß` in upper case is `SS`.  A character that no table mentions is its own upper
and lower case form.  The mapping looks at one character only, so a final `Σ` is
no exception and no language has rules of its own.
-/

namespace ResourceStubs
namespace Text

/-- Does the run cover this code point? -/
def CaseRun.covers (r : CaseRun) (n : Nat) : Bool :=
  r.first ≤ n && n ≤ r.last && (n - r.first) % r.step == 0

/-- The case form of a character by a table of runs and a table of expansions. -/
def caseForm (runs : List CaseRun) (expansions : List (Nat × List Nat)) (c : Char) :
    List Char :=
  match expansions.lookup c.toNat with
  | some points => points.map Char.ofNat
  | none =>
      match runs.find? (·.covers c.toNat) with
      | some r => [Char.ofNat (c.toNat + r.shift).toNat]
      | none => [c]

/-- The upper case form of a character. -/
def upper (c : Char) : List Char :=
  caseForm upperRuns upperExpansions c

/-- The lower case form of a character. -/
def lower (c : Char) : List Char :=
  caseForm lowerRuns lowerExpansions c

/-- The text with its first character in upper case and the rest as it is. -/
def capitalizeChars : List Char → List Char
  | [] => []
  | c :: cs => upper c ++ cs

@[simp] theorem capitalizeChars_nil : capitalizeChars [] = [] := rfl

@[simp] theorem capitalizeChars_cons (c : Char) (cs : List Char) :
    capitalizeChars (c :: cs) = upper c ++ cs := rfl

/-- Letters of `a` to `z` and `A` to `Z` are told apart by their case only. -/
def sameIgnoringCase (s t : String) : Bool :=
  s.toList.map Char.toLower == t.toList.map Char.toLower

end Text
end ResourceStubs
