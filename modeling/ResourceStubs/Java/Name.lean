import ResourceStubs.Text.LetterCase
import ResourceStubs.Text.Search

/-!
# Names in the generated code

Resource names use letters, digits and underscores, and now and then a dot, a
dash or a colon.  The generated code uses three spellings of them: an identifier,
in which the three last become underscores; a field name in camel case
(`submit_btn` becomes `submitBtn`); and the name of the binding class of a
layout (`activity_main` becomes `ActivityMainBinding`).
-/

namespace ResourceStubs
namespace Java

/-- The name with its first character in upper case. -/
def capitalize (name : String) : String :=
  String.ofList (Text.capitalizeChars name.toList)

/-- The pieces between underscores, each with its first character in upper case,
in one word. -/
def joinedPieces (name : String) : List Char :=
  (Text.pieces '_' name.toList).flatMap Text.capitalizeChars

/-- The name in camel case: `submit_btn` becomes `submitBtn`. -/
def camelCase (name : String) : String :=
  match joinedPieces name with
  | [] => ""
  | c :: cs => String.ofList (Text.lower c ++ cs)

/-- The binding class of a layout: `activity_main` becomes
`ActivityMainBinding`. -/
def bindingClassName (layout : String) : String :=
  String.ofList (joinedPieces layout) ++ "Binding"

/-- Dots, dashes and colons are not part of an identifier; each becomes an
underscore. -/
def identifierChar (c : Char) : Char :=
  if c = '.' ∨ c = '-' ∨ c = ':' then '_' else c

/-- The resource name as an identifier. -/
def identifier (name : String) : String :=
  String.ofList (name.toList.map identifierChar)

end Java
end ResourceStubs
