import ResourceStubs.Java.TypeExpr
import ResourceStubs.Text.Blank
import ResourceStubs.Text.Search

/-!
# Reading type expressions

The `type` attribute of an import or a variable is a type expression: a
primitive, an imported alias, a qualified class name, any of these with type
arguments in angle brackets, and any of these with `[]` behind it.

`resolve` reads an expression from the outside in.  It first looks at the end of
the expression for `[]`, then for the last `>` and the first `<` before it, and
what is left without either is a leaf: an alias if there is one of that name,
else a primitive, else a class.  What stands between the outer brackets is cut
at the commas that are not inside further brackets, and loses all its blanks.

## Which failure wins

Brackets are counted before anything else is read, so an unbalanced expression
is reported as such whatever else is wrong with it.  Arguments are resolved from
left to right, and all of them before the class in front of them.
-/

namespace ResourceStubs

/-- Why a type expression denotes no type. -/
inductive TypeError where
  | empty
  | unbalanced (expression : String)
  | emptyArgument (expression : String)
  | nonClassBase (expression : String)
  deriving DecidableEq, Repr

/-- What a reader of the failure is told. -/
def TypeError.message : TypeError → String
  | .empty => "empty type expression"
  | .unbalanced e => "unbalanced generic delimiters in `" ++ e ++ "`"
  | .emptyArgument e => "empty type argument in `" ++ e ++ "`"
  | .nonClassBase e => "generic base of `" ++ e ++ "` is not a class"

/-- The types that imports have given a short name, the latest first. -/
abbrev Aliases := List (String × JavaType)

/-- Gives a type a short name, in place of what had that name. -/
def Aliases.insert (aliases : Aliases) (name : String) (type : JavaType) : Aliases :=
  (name, type) :: aliases

/-- The type that a short name stands for. -/
def Aliases.find? (aliases : Aliases) (name : String) : Option JavaType :=
  aliases.lookup name

@[simp] theorem Aliases.find?_insert (aliases : Aliases) (given name : String) (t : JavaType) :
    (aliases.insert given t).find? name = if name == given then some t else aliases.find? name := by
  simp only [find?, insert, List.lookup_cons]
  cases name == given <;> rfl

namespace JavaType

/-- The names that denote a primitive type, unless an alias has taken them. -/
def primitiveNames : List String :=
  ["void", "boolean", "byte", "short", "int", "long", "char", "float", "double"]

/-- Does every `>` close a `<` before it, when `depth` of them are open? -/
def balancedFrom : Nat → List Char → Bool
  | depth, [] => depth == 0
  | depth, c :: cs =>
      if c = '<' then balancedFrom (depth + 1) cs
      else if c = '>' then
        match depth with
        | 0 => false
        | depth + 1 => balancedFrom depth cs
      else balancedFrom depth cs

/-- Are the angle brackets of the text balanced? -/
def balanced (cs : List Char) : Bool :=
  balancedFrom 0 cs

/-- What a character adds to the number of open brackets. -/
def bracketStep (c : Char) : Int :=
  if c = '<' then 1 else if c = '>' then -1 else 0

/-- The pieces between the commas that stand at the depth zero, less all blanks,
when `depth` brackets are open.  The depth may be negative; then no comma cuts
until it is zero again. -/
def splitArgumentsFrom : Int → List Char → List (List Char)
  | _, [] => [[]]
  | depth, c :: cs =>
      if c = ',' ∧ depth = 0 then [] :: splitArgumentsFrom depth cs
      else if Text.isBlank c then splitArgumentsFrom depth cs
      else match splitArgumentsFrom (depth + bracketStep c) cs with
        | piece :: rest => (c :: piece) :: rest
        | [] => [[c]]

/-- The type arguments that stand between two brackets. -/
def splitArguments (cs : List Char) : List (List Char) :=
  splitArgumentsFrom 0 cs

/-- The room that a list of pieces takes, each with a comma behind it. -/
def piecesRoom : List (List Char) → Nat
  | [] => 0
  | piece :: rest => piece.length + 1 + piecesRoom rest

theorem piecesRoom_splitArgumentsFrom (depth : Int) (cs : List Char) :
    piecesRoom (splitArgumentsFrom depth cs) ≤ cs.length + 1 := by
  induction cs generalizing depth with
  | nil => simp [splitArgumentsFrom, piecesRoom]
  | cons c cs ih =>
    rw [splitArgumentsFrom]
    split
    · have := ih depth
      simp only [piecesRoom, List.length_cons, List.length_nil] at *
      omega
    · split
      · have := ih depth
        simp only [List.length_cons]
        omega
      · have := ih (depth + bracketStep c)
        split <;> simp_all only [piecesRoom, List.length_cons, List.length_nil] <;> omega

/-- The parts of `base<parameters>`: what stands before the first bracket, and
what stands between it and the last closing bracket.  Text behind the closing
bracket belongs to neither. -/
def genericParts? (cs : List Char) : Option (List Char × List Char) :=
  match Text.cutLast? ['>'] cs with
  | none => none
  | some (before, _) => Text.cutFirst? ['<'] before

theorem length_genericParts? {cs base parameters : List Char}
    (h : genericParts? cs = some (base, parameters)) :
    base.length + parameters.length + 2 ≤ cs.length := by
  unfold genericParts? at h
  split at h
  · simp at h
  · rename_i before after hcut
    have hbefore := Text.eq_of_cutFirst?_eq_some h
    obtain ⟨⟨a, b⟩, hrev, heq⟩ := Option.map_eq_some_iff.1 hcut
    have hcs := congrArg List.length (Text.eq_of_cutFirst?_eq_some hrev)
    simp only [Prod.mk.injEq] at heq
    obtain ⟨rfl, rfl⟩ := heq
    have := congrArg List.length hbefore
    simp only [List.length_reverse, List.length_append, List.length_cons, List.length_nil,
      List.reverse_cons, List.reverse_nil] at *
    omega

/-- The element part of an array expression. -/
def arrayElement? (cs : List Char) : Option (List Char) :=
  (Text.afterStart? [']', '['] cs.reverse).map List.reverse

theorem length_arrayElement? {cs element : List Char} (h : arrayElement? cs = some element) :
    element.length + 2 ≤ cs.length := by
  obtain ⟨r, hr, rfl⟩ := Option.map_eq_some_iff.1 h
  have := congrArg List.length (Text.afterStart?_eq_some_iff.1 hr)
  simp only [List.length_reverse, List.length_append, List.length_cons, List.length_nil] at *
  omega

/-- The type of an expression without brackets. -/
def leaf (aliases : Aliases) (name : String) : JavaType :=
  match aliases.find? name with
  | some t => t
  | none => if name ∈ primitiveNames then primitive name else named name

theorem length_dropEndWhile_le (p : α → Bool) (l : List α) :
    (Text.dropEndWhile p l).length ≤ l.length := by
  have := (List.dropWhile_sublist p (l := l.reverse)).length_le
  simpa [Text.dropEndWhile] using this

theorem length_trim_le (cs : List Char) : (Text.trim cs).length ≤ cs.length :=
  Nat.le_trans (length_dropEndWhile_le _ _) (List.dropWhile_sublist _).length_le

mutual

/-- The type that an expression denotes, read as characters. -/
def resolveChars (aliases : Aliases) (cs : List Char) : Except TypeError JavaType :=
  let e := Text.trim cs
  if e.isEmpty then .error .empty
  else if !balanced e then .error (.unbalanced (String.ofList e))
  else match _helement : arrayElement? e with
    | some element => do
        let t ← resolveChars aliases element
        return .array t
    | none =>
        match _hparts : genericParts? e with
        | some (base, parameters) => do
            let arguments ← resolveArguments aliases (String.ofList e) (splitArguments parameters)
            match ← resolveChars aliases base with
            | .named name => return .generic name arguments
            | _ => throw (.nonClassBase (String.ofList e))
        | none => .ok (leaf aliases (String.ofList e))
termination_by cs.length
decreasing_by
  all_goals have hle : e.length ≤ cs.length := length_trim_le cs
  · have := length_arrayElement? _helement; omega
  · have := length_genericParts? _hparts
    have hroom := piecesRoom_splitArgumentsFrom 0 parameters
    simp only [splitArguments] at *
    omega
  · have := length_genericParts? _hparts; omega

/-- The types of the arguments of `expression`, from left to right. -/
def resolveArguments (aliases : Aliases) (expression : String) :
    List (List Char) → Except TypeError (List JavaType)
  | [] => .ok []
  | piece :: rest => do
      if piece.isEmpty then throw (.emptyArgument expression)
      let t ← resolveChars aliases piece
      let ts ← resolveArguments aliases expression rest
      return t :: ts
termination_by pieces => piecesRoom pieces
decreasing_by all_goals simp only [piecesRoom]; omega

end

/-- The type that an expression denotes. -/
def resolve (aliases : Aliases) (expression : String) : Except TypeError JavaType :=
  resolveChars aliases expression.toList

end JavaType
end ResourceStubs
