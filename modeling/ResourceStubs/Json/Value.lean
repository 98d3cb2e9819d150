/-!
# JSON values

The value that a JSON document stands for, as far as a reader of class
information needs it: numbers are not kept, and objects keep their pairs in the
order of the document, repetitions included.

A string is written with escapes, and escapes may leave half of a surrogate pair
alone.  Such a string is well formed and yet no text, so the value has `none` for
it.
-/

namespace ResourceStubs
namespace Json

/-- A JSON value. -/
inductive Value where
  | null
  | boolean (b : Bool)
  | number
  | string (text : Option String)
  | array (elements : List Value)
  | object (members : List (Option String × Value))
  deriving Repr, Inhabited

end Json
end ResourceStubs
