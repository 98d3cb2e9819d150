import ResourceStubs.Resource.Kind

/-!
# Symbols

A symbol is one field of the class `R`: its kind says which nested class it is
in, and its kind and name together say which symbol it is.  Values are
placeholders.  A scalar has the value `0`; an array has as many zeros in braces
as it has members, and an array without members has braces with a blank between
them.
-/

namespace ResourceStubs

/-- One field of the class `R`. -/
structure SymbolEntry where
  kind : ResourceKind
  name : String
  value : String
  isArray : Bool
  deriving DecidableEq, Repr

/-- The value of every scalar. -/
def placeholder : String := "0"

/-- The value of an array with `count` members. -/
def placeholderArray (count : Nat) : String :=
  if count = 0 then "\x7b \x7d"
  else "\x7b " ++ ", ".intercalate (List.replicate count placeholder) ++ " \x7d"

namespace SymbolEntry

/-- The symbol with a placeholder for its value. -/
def scalar (kind : ResourceKind) (name : String) : SymbolEntry :=
  ⟨kind, name, placeholder, false⟩

/-- The array symbol with a given value. -/
def array (kind : ResourceKind) (name value : String) : SymbolEntry :=
  ⟨kind, name, value, true⟩

@[simp] theorem kind_scalar (kind : ResourceKind) (name : String) :
    (scalar kind name).kind = kind := rfl

@[simp] theorem name_scalar (kind : ResourceKind) (name : String) :
    (scalar kind name).name = name := rfl

@[simp] theorem kind_array (kind : ResourceKind) (name value : String) :
    (array kind name value).kind = kind := rfl

@[simp] theorem name_array (kind : ResourceKind) (name value : String) :
    (array kind name value).name = name := rfl

end SymbolEntry
end ResourceStubs
