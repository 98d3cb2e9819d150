/-!
# Types of the generated code

A `JavaType` is what a type attribute of a layout denotes: a primitive, a class,
an array, or a class with type arguments.  The type carries names as texts and
does not restrict them, so that a type can be printed wherever it came from;
which types the reader of type expressions makes is a question for
`Java.Resolve`.

`JavaType.text` prints a type the way it is declared: `T[]` for an array, and
`Base<A, B>` for a class with arguments.
-/

namespace ResourceStubs

/-- A type of a field, a parameter or a method of the generated code. -/
inductive JavaType where
  | primitive (name : String)
  | named (name : String)
  | array (element : JavaType)
  | generic (base : String) (arguments : List JavaType)
  deriving Repr, Inhabited

namespace JavaType

mutual

/-- Are two types the same? -/
def beq : JavaType → JavaType → Bool
  | primitive a, primitive b => a == b
  | named a, named b => a == b
  | array s, array t => beq s t
  | generic a ss, generic b ts => a == b && beqAll ss ts
  | _, _ => false

/-- Are two lists of types the same, place by place? -/
def beqAll : List JavaType → List JavaType → Bool
  | [], [] => true
  | s :: ss, t :: ts => beq s t && beqAll ss ts
  | _, _ => false

end

mutual

theorem eq_of_beq : ∀ {s t : JavaType}, beq s t = true → s = t
  | primitive _, primitive _, h => by simpa [beq] using h
  | named _, named _, h => by simpa [beq] using h
  | array _, array _, h => by rw [beq] at h; rw [eq_of_beq h]
  | generic _ _, generic _ _, h => by
    simp only [beq, Bool.and_eq_true, beq_iff_eq] at h
    rw [h.1, eq_of_beqAll h.2]
  | primitive _, named _, h | primitive _, array _, h | primitive _, generic _ _, h
  | named _, primitive _, h | named _, array _, h | named _, generic _ _, h
  | array _, primitive _, h | array _, named _, h | array _, generic _ _, h
  | generic _ _, primitive _, h | generic _ _, named _, h | generic _ _, array _, h => by
    simp [beq] at h

theorem eq_of_beqAll : ∀ {ss ts : List JavaType}, beqAll ss ts = true → ss = ts
  | [], [], _ => rfl
  | _ :: _, _ :: _, h => by
    simp only [beqAll, Bool.and_eq_true] at h
    rw [eq_of_beq h.1, eq_of_beqAll h.2]
  | [], _ :: _, h | _ :: _, [], h => by simp [beqAll] at h

end

mutual

theorem beq_refl : ∀ t : JavaType, beq t t = true
  | primitive _ | named _ => by simp [beq]
  | array t => by rw [beq]; exact beq_refl t
  | generic _ ts => by simp [beq, beqAll_refl ts]

theorem beqAll_refl : ∀ ts : List JavaType, beqAll ts ts = true
  | [] => rfl
  | t :: ts => by simp [beqAll, beq_refl t, beqAll_refl ts]

end

instance : DecidableEq JavaType := fun s t =>
  if h : beq s t = true then .isTrue (eq_of_beq h)
  else .isFalse fun heq => h (heq ▸ beq_refl s)

mutual

/-- The type as it is declared. -/
def text : JavaType → String
  | primitive name => name
  | named name => name
  | array element => element.text ++ "[]"
  | generic base arguments => base ++ "<" ++ argumentsText arguments ++ ">"

/-- The type arguments, with a comma and a space between two of them. -/
def argumentsText : List JavaType → String
  | [] => ""
  | [t] => t.text
  | t :: ts => t.text ++ ", " ++ argumentsText ts

end

@[simp] theorem text_primitive (name : String) : (primitive name).text = name := rfl

@[simp] theorem text_named (name : String) : (named name).text = name := rfl

@[simp] theorem text_array (t : JavaType) : (array t).text = t.text ++ "[]" := rfl

@[simp] theorem text_generic (base : String) (ts : List JavaType) :
    (generic base ts).text = base ++ "<" ++ argumentsText ts ++ ">" := rfl

/-- The name of the class, for a class with or without type arguments. -/
def className? : JavaType → Option String
  | named name => some name
  | generic base _ => some base
  | _ => none

end JavaType
end ResourceStubs
