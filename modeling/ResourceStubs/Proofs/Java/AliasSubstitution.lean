import ResourceStubs.Proofs.Java.TypeRoundTrip

/-!
# Aliases are substituted

An expression that denotes a type without aliases denotes, with them, the type that is made
from it by substitution: each leaf that has an alias is replaced by the type of the alias, and
the class in front of type arguments by the class that its alias names.  What has been put in
is not looked at again, so an alias of an alias is no alias (`substitute`).

Only a class can have type arguments.  An expression therefore fails if one of its classes with
arguments is the alias of something else (`BasesAreClasses`), and for no other reason.

* `Denotes.followsAliases`: the one or the other, by induction on what the expression denotes
  without aliases.  The arguments are resolved before their class
  (`resolveArguments_followsAliases`).
* `resolve_eq_substitute`: the same for the expression as a text.
-/

namespace ResourceStubs

/-- May a class of this name have type arguments?  It has no alias, or an alias that is the
name of a class. -/
def Aliases.NamesClass (aliases : Aliases) (base : String) : Prop :=
  aliases.find? base = none ∨ ∃ name, aliases.find? base = some (.named name)

/-- The class that stands in front of type arguments in place of this one. -/
def Aliases.className (aliases : Aliases) (base : String) : String :=
  match aliases.find? base with
  | some (.named name) => name
  | _ => base

namespace JavaType

open Text

/-! ## Substitution -/

mutual

/-- The type with the types of the aliases in place of its leaves and of its classes with
arguments. -/
def substitute (aliases : Aliases) : JavaType → JavaType
  | primitive name => (aliases.find? name).getD (primitive name)
  | named name => (aliases.find? name).getD (named name)
  | array element => array (substitute aliases element)
  | generic base arguments =>
      generic (aliases.className base) (substituteAll aliases arguments)

/-- The types of a list, each with its aliases substituted. -/
def substituteAll (aliases : Aliases) : List JavaType → List JavaType
  | [] => []
  | t :: ts => substitute aliases t :: substituteAll aliases ts

end

mutual

/-- The classes with arguments that occur in a type, in the order in which they are read. -/
def bases : JavaType → List String
  | primitive _ => []
  | named _ => []
  | array element => element.bases
  | generic base arguments => basesOfAll arguments ++ [base]

/-- The classes with arguments that occur in the types of a list. -/
def basesOfAll : List JavaType → List String
  | [] => []
  | t :: ts => t.bases ++ basesOfAll ts

end

/-- Is no class with arguments the alias of something else than a class? -/
def BasesAreClasses (aliases : Aliases) (t : JavaType) : Prop :=
  ∀ base ∈ t.bases, aliases.NamesClass base

variable {aliases : Aliases} {t : JavaType}

theorem mem_basesOfAll {base : String} {ts : List JavaType} :
    base ∈ basesOfAll ts ↔ ∃ t ∈ ts, base ∈ t.bases := by
  induction ts with
  | nil => simp [basesOfAll]
  | cons t ts ih => simp [basesOfAll, ih]

theorem basesAreClasses_array :
    (array t).BasesAreClasses aliases ↔ t.BasesAreClasses aliases := Iff.rfl

theorem basesAreClasses_generic {base : String} {arguments : List JavaType} :
    (generic base arguments).BasesAreClasses aliases ↔
      (∀ t ∈ arguments, t.BasesAreClasses aliases) ∧ aliases.NamesClass base := by
  unfold BasesAreClasses
  rw [bases, List.forall_mem_append, List.forall_mem_singleton]
  refine and_congr_left' ⟨fun h t ht base hbase => ?_, fun h base hbase => ?_⟩
  · exact h base (mem_basesOfAll.2 ⟨t, ht, hbase⟩)
  · obtain ⟨t, ht, hbase⟩ := mem_basesOfAll.1 hbase
    exact h t ht base hbase

/-- A leaf is replaced by the type of its alias. -/
theorem leaf_eq_substitute (aliases : Aliases) (name : String) :
    leaf aliases name = (leaf [] name).substitute aliases := by
  have hnone : Aliases.find? [] name = none := rfl
  rw [leaf, leaf, hnone]
  by_cases hprimitive : name ∈ primitiveNames
  · rw [if_pos hprimitive, substitute]
    cases aliases.find? name <;> rfl
  · rw [if_neg hprimitive, substitute]
    cases aliases.find? name <;> rfl

theorem bases_leaf (name : String) : (leaf [] name).bases = [] := by
  have hnone : Aliases.find? [] name = none := rfl
  rw [leaf, hnone]
  by_cases hprimitive : name ∈ primitiveNames
  · rw [if_pos hprimitive, bases]
  · rw [if_neg hprimitive, bases]

/-! ## Reading with aliases -/

variable {cs base parameters : List Char}

/-- What reading an expression with aliases comes to, when it denotes this type without them. -/
structure FollowsAliases (aliases : Aliases) (cs : List Char) (t : JavaType) : Prop where
  substituted : t.BasesAreClasses aliases → resolveChars aliases cs = .ok (t.substitute aliases)
  nonClassBase : ¬t.BasesAreClasses aliases →
    ∃ expression, resolveChars aliases cs = .error (.nonClassBase expression)

theorem FollowsAliases.ne_nil (h : FollowsAliases aliases cs t) : cs ≠ [] := by
  rintro rfl
  by_cases hbases : t.BasesAreClasses aliases
  · exact absurd (resolveChars_nil.symm.trans (h.substituted hbases)) (by simp)
  · obtain ⟨expression, herror⟩ := h.nonClassBase hbases
    exact absurd (resolveChars_nil.symm.trans herror) (by simp)

/-- **Arguments are substituted from left to right**, and the first class that cannot have
arguments is reported. -/
theorem resolveArguments_followsAliases {expression : String} {pieces : List (List Char)}
    {arguments : List JavaType} (h : List.Forall₂ (FollowsAliases aliases) pieces arguments) :
    ((∀ t ∈ arguments, t.BasesAreClasses aliases) →
      resolveArguments aliases expression pieces = .ok (substituteAll aliases arguments)) ∧
    ((¬∀ t ∈ arguments, t.BasesAreClasses aliases) →
      ∃ text, resolveArguments aliases expression pieces = .error (.nonClassBase text)) := by
  induction h with
  | nil =>
      refine ⟨fun _ => ?_, fun hbases => absurd (by simp) hbases⟩
      rw [resolveArguments, substituteAll]
  | @cons piece t pieces ts ht _ ih =>
      rw [resolveArguments_cons ht.ne_nil, List.forall_mem_cons]
      constructor
      · rintro ⟨hbases, hrest⟩
        rw [ht.substituted hbases, ih.1 hrest, substituteAll]
        rfl
      · intro hbases
        by_cases hfirst : t.BasesAreClasses aliases
        · obtain ⟨text, herror⟩ := ih.2 fun hrest => hbases ⟨hfirst, hrest⟩
          exact ⟨text, by rw [ht.substituted hfirst, herror]; rfl⟩
        · obtain ⟨text, herror⟩ := ht.nonClassBase hfirst
          exact ⟨text, by rw [herror]; rfl⟩

/-- The class in front of arguments is substituted, unless it has become something else. -/
theorem resolveBase_followsAliases {name expression : String} {arguments : List JavaType}
    (h : FollowsAliases aliases base (named name)) :
    (aliases.NamesClass name → resolveChars aliases base >>= withArguments expression arguments =
      .ok (generic (aliases.className name) arguments)) ∧
    (¬aliases.NamesClass name → resolveChars aliases base >>= withArguments expression arguments =
      .error (.nonClassBase expression)) := by
  have hbase : resolveChars aliases base = .ok ((named name).substitute aliases) :=
    h.substituted fun _ hmem => absurd hmem List.not_mem_nil
  rw [hbase, substitute, Aliases.NamesClass, Aliases.className]
  cases aliases.find? name with
  | none => exact ⟨fun _ => rfl, fun hnot => absurd (Or.inl rfl) hnot⟩
  | some s =>
      cases s with
      | named other => exact ⟨fun _ => rfl, fun hnot => absurd (Or.inr ⟨other, rfl⟩) hnot⟩
      | primitive _ | array _ | generic _ _ => exact ⟨by simp, fun _ => rfl⟩

/-- **An expression follows the aliases**, by induction on what it denotes without them. -/
theorem Denotes.followsAliases (h : Denotes [] cs t) : FollowsAliases aliases cs t := by
  induction h with
  | @array cs element t hcs hparts _ ih =>
      have hstep : resolveChars aliases cs =
          resolveChars aliases element >>= fun s => .ok (JavaType.array s) := by
        rw [resolveChars_of_isExpression hcs, arrayElement?_eq_some_iff.2 hparts]
      constructor
      case substituted =>
        intro hbases
        rw [hstep, ih.substituted hbases, substitute]
        rfl
      case nonClassBase =>
        intro hbases
        obtain ⟨expression, herror⟩ := ih.nonClassBase hbases
        exact ⟨expression, by rw [hstep, herror]; rfl⟩
  | @generic cs base parameters behind name arguments hcs harray hparts hopen hclose hlength _ _
      ihArguments ihBase =>
      have hstep := resolveChars_eq_of_generic aliases hcs
        (arrayElement?_eq_none_iff.2 harray)
        (genericParts?_eq_some_iff.2 ⟨behind, hparts, hopen, hclose⟩)
      obtain ⟨hsubstituted, herror⟩ := resolveArguments_followsAliases
        (List.forall₂_iff_zip.2 ⟨hlength, ihArguments _ _⟩)
      constructor
      case substituted =>
        intro hbases
        obtain ⟨harguments, hclass⟩ := basesAreClasses_generic.1 hbases
        rw [hstep, hsubstituted harguments, substitute]
        exact (resolveBase_followsAliases ihBase).1 hclass
      case nonClassBase =>
        intro hbases
        by_cases harguments : ∀ t ∈ arguments, t.BasesAreClasses aliases
        · have hclass : ¬aliases.NamesClass name :=
            fun hclass => hbases (basesAreClasses_generic.2 ⟨harguments, hclass⟩)
          rw [hstep, hsubstituted harguments]
          exact ⟨_, (resolveBase_followsAliases ihBase).2 hclass⟩
        · obtain ⟨text, htext⟩ := herror harguments
          exact ⟨text, by rw [hstep, htext]; rfl⟩
  | @leaf cs hcs harray hopen hclose =>
      have hparts := (genericParts?_eq_none_iff hcs.balanced).2 ⟨hopen, hclose⟩
      constructor
      case substituted =>
        intro _
        rw [resolveChars_of_leaf hcs (arrayElement?_eq_none_iff.2 harray) hparts,
          leaf_eq_substitute]
      case nonClassBase =>
        intro hbases
        refine absurd (fun base hbase => ?_) hbases
        rw [bases_leaf] at hbase
        exact absurd hbase List.not_mem_nil

/-- **Resolving with aliases is substitution.** -/
theorem resolve_eq_substitute {expression : String} (h : resolve [] expression = .ok t)
    (aliases : Aliases) :
    (t.BasesAreClasses aliases → resolve aliases expression = .ok (t.substitute aliases)) ∧
    (¬t.BasesAreClasses aliases →
      ∃ text, resolve aliases expression = .error (.nonClassBase text)) :=
  have hfollows : FollowsAliases aliases expression.toList t :=
    (resolve_eq_ok_iff.1 h).followsAliases
  ⟨hfollows.substituted, hfollows.nonClassBase⟩

/-- Aliases of a class with arguments and of two leaves, one of which is named by another. -/
def shortNames : Aliases :=
  [("Map", named "java.util.Map"), ("String", named "Foo"), ("Foo", array (primitive "int"))]

/-- A map is substituted once, and is no type where a list is the alias of a primitive. -/
theorem resolve_eq_substitute_mapOfLists :
    resolve [] " Map<String,List< Foo[ ]>> " = .ok mapOfLists ∧
    resolve shortNames " Map<String,List< Foo[ ]>> " = .ok (generic "java.util.Map"
      [named "Foo", generic "List" [array (array (primitive "int"))]]) ∧
    ∃ text, resolve [("List", primitive "int")] " Map<String,List< Foo[ ]>> " =
      .error (.nonClassBase text) := by
  have hread := resolve_mapOfLists
  have hbases : mapOfLists.bases = ["List", "Map"] := by decide
  refine ⟨hread, (resolve_eq_substitute hread shortNames).1 ?_,
    (resolve_eq_substitute hread [("List", primitive "int")]).2 fun h => ?_⟩
  · intro base hbase
    rw [hbases] at hbase
    rcases List.mem_pair.1 hbase with rfl | rfl
    · exact Or.inl rfl
    · exact Or.inr ⟨"java.util.Map", rfl⟩
  · have hlist : "List" ∈ mapOfLists.bases := by rw [hbases]; exact List.mem_cons_self
    rcases h "List" hlist with hnone | ⟨name, hsome⟩
    · exact absurd hnone (by decide)
    · cases hsome

end JavaType
end ResourceStubs
