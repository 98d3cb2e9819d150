import ResourceStubs.Proofs.Text.Pieces
import ResourceStubs.Symbol.Entry

/-!
# The values that an array is written with

An array is written in braces with commas between its values.  `arrayValues` reads the
values back, and `arrayValues_placeholderArray` says that a placeholder for `count`
members has `count` of them, all zero.
-/

namespace ResourceStubs

/-- Is the character part of a value, and not a blank or a brace? -/
def isValueChar (c : Char) : Bool :=
  c ≠ ' ' && c ≠ '\x7b' && c ≠ '\x7d'

/-- The values of an array as it is written. -/
def arrayValues (text : String) : List String :=
  ((Text.pieces ',' (text.toList.filter isValueChar)).filter fun piece => !piece.isEmpty).map
    String.ofList

theorem filter_intercalate (p : Char → Bool) (separator : List Char) (texts : List (List Char)) :
    (separator.intercalate texts).filter p =
      (separator.filter p).intercalate (texts.map fun text => text.filter p) := by
  induction texts with
  | nil => rfl
  | cons text texts ih =>
      cases texts with
      | nil => rw [List.intercalate_singleton, List.map_singleton, List.intercalate_singleton]
      | cons next texts =>
          rw [List.intercalate_cons_cons, List.filter_append, List.filter_append, ih,
            List.map_cons, List.map_cons, List.map_cons, List.intercalate_cons_cons]

/-- What is left of a placeholder when blanks and braces are gone. -/
theorem filter_placeholderArray (count : Nat) :
    (placeholderArray count).toList.filter isValueChar =
      [','].intercalate (List.replicate count ['0']) := by
  rw [placeholderArray]
  split
  · rename_i h
    rw [h]
    rfl
  · have hopen : "\x7b ".toList.filter isValueChar = [] := by decide
    have hclose : " \x7d".toList.filter isValueChar = [] := by decide
    have hcomma : ", ".toList.filter isValueChar = [','] := by decide
    have hzero : placeholder.toList.filter isValueChar = ['0'] := by decide
    rw [String.toList_append, String.toList_append, String.toList_intercalate,
      List.filter_append, List.filter_append, filter_intercalate, hopen, hclose, hcomma,
      List.map_replicate, List.map_replicate, hzero, List.nil_append, List.append_nil]

/-- **A placeholder for `count` members has `count` values.** -/
theorem arrayValues_placeholderArray (count : Nat) :
    arrayValues (placeholderArray count) = List.replicate count "0" := by
  rw [arrayValues, filter_placeholderArray]
  cases count with
  | zero => rfl
  | succ n =>
      have hcomma : ∀ cs ∈ List.replicate (n + 1) ['0'], ',' ∉ cs := by
        intro cs hcs
        rw [List.eq_of_mem_replicate hcs]
        decide
      have hkeep : ∀ cs ∈ List.replicate (n + 1) ['0'], (!cs.isEmpty) = true := by
        intro cs hcs
        rw [List.eq_of_mem_replicate hcs]
        rfl
      rw [Text.pieces_intercalate (by simp) hcomma, List.filter_eq_self.2 hkeep,
        List.map_replicate]

theorem length_arrayValues_placeholderArray (count : Nat) :
    (arrayValues (placeholderArray count)).length = count := by
  rw [arrayValues_placeholderArray, List.length_replicate]

theorem head?_placeholderArray (count : Nat) :
    (placeholderArray count).toList.head? = some '\x7b' := by
  rw [placeholderArray]
  split
  · rfl
  · rw [String.toList_append, String.toList_append]
    rfl

end ResourceStubs
