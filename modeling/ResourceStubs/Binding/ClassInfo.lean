import ResourceStubs.Json.Read

/-!
# Class information of dependencies

A dependency publishes which class it has for which of its layouts, as a document

    {"mappings": {"main": {"qualified_name": "lib.MainBinding"}}}

Two records are in it: the outer one with the field `mappings`, which may be left
out, and the inner one with the field `qualified_name`, which may not.  A record
may also be written as an array of its fields in order.  Other fields are not
looked at.  A field may come once, but a layout may come several times; then the
last one counts.
-/

namespace ResourceStubs
namespace ClassInfo

open Json

/-- The values of a field that stands among others.  Names that are no text make
the record unreadable. -/
def fieldValues? (field : String) : List (Option String × Value) → Option (List Value)
  | [] => some []
  | (none, _) :: _ => none
  | (some name, v) :: rest =>
      (fieldValues? field rest).map fun vs => if name = field then v :: vs else vs

/-- The class name in a value. -/
def className? : Value → Option String
  | .string text => text
  | _ => none

/-- The class name of a layout. -/
def qualifiedName? : Value → Option String
  | .object members =>
      match fieldValues? "qualified_name" members with
      | some [v] => className? v
      | _ => none
  | .array [v] => className? v
  | _ => none

/-- Sets the class of a layout, in a list that ascends by layouts. -/
def putAscending (layout qualified : String) : List (String × String) → List (String × String)
  | [] => [(layout, qualified)]
  | (l, q) :: rest =>
      match compare layout l with
      | .lt => (layout, qualified) :: (l, q) :: rest
      | .eq => (layout, qualified) :: rest
      | .gt => (l, q) :: putAscending layout qualified rest

/-- Adds one layout with its class. -/
def addMapping? (known : List (String × String)) (member : Option String × Value) :
    Option (List (String × String)) := do
  let layout ← member.1
  let qualified ← qualifiedName? member.2
  return putAscending layout qualified known

/-- The layouts in the value of the field `mappings`, in order of their names. -/
def mappings? : Value → Option (List (String × String))
  | .object members => members.foldlM addMapping? []
  | _ => none

/-- The layouts and their classes, in order of the layouts' names. -/
def ofValue? : Value → Option (List (String × String))
  | .object members =>
      match fieldValues? "mappings" members with
      | some [] => some []
      | some [v] => mappings? v
      | _ => none
  | .array [] => some []
  | .array [v] => mappings? v
  | _ => none

/-- The layouts and their classes in a document. -/
def read? (document : String) : Option (List (String × String)) :=
  (Json.read? document).bind ofValue?

end ClassInfo
end ResourceStubs
