import ResourceStubs.Failure
import ResourceStubs.Symbol.Entry
import ResourceStubs.Text.Blank

/-!
# Symbol lines

A dependency lists its symbols in lines such as `int string app_name 0x7f010001`
and `int[] styleable View { 0x1, 0x2 }`.  A line is cut into words; the second is
the kind and the third the name.  The values are not kept, only their number in
an array: it is the number of words between the braces, which are the fourth word
and the last one.  A line has an array if it has `[]` anywhere in it.
-/

namespace ResourceStubs
namespace SymbolLine

/-- The words that stand around the values of an array: the type, the kind, the
name and two braces. -/
def wordsAroundValues : Nat := 5

/-- The symbol of a line, or none if the line is blank. -/
def read (line : String) : Except Failure (Option SymbolEntry) :=
  let words := Text.words line.toList
  match words with
  | [] => .ok none
  | _ :: kindWord :: nameWord :: _ =>
      match ResourceKind.ofName? (String.ofList kindWord) with
      | none => .error (.unknownKind (String.ofList kindWord))
      | some kind =>
          let name := String.ofList nameWord
          if Text.occursIn ['[', ']'] line.toList then
            .ok (some (.array kind name (placeholderArray (words.length - wordsAroundValues))))
          else .ok (some (.scalar kind name))
  | _ => .error (.malformedLine line)

end SymbolLine
end ResourceStubs
