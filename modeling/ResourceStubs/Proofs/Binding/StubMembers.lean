import ResourceStubs.Binding.Stub
import ResourceStubs.Proofs.Binding.ReadLayouts
import ResourceStubs.Proofs.Java.NameSpelling
import ResourceStubs.Proofs.List.StableSort

/-!
# The members of a binding class

A binding class is written as text.  Here its members are taken apart: fields with their
modifiers, types and names, the constructor with its parameters and the fields that it sets,
and methods with their parameters.  What is written are these members, and no others
(`fields_eq`, `methods_eq`).

A layout has no id and no variable twice, but members are named after camel case, and the
field of a variable has a name that an id can have, too.  `members_of_readContents` says for
each kind of member when names collide.  Ids and variables in snake case collide in one way
only: as `m_user` and `user` do (`apart_of_isSnakeCase`).
-/

namespace ResourceStubs
namespace Stub

open Java

variable {d : LayoutData} {b b' v v' : Binding} {package : String}

/-- A field with what is declared of it. -/
structure FieldDeclaration where
  annotation : String
  modifiers : String
  type : String
  name : String
  deriving DecidableEq, Repr

/-- The field as it is written. -/
def FieldDeclaration.field (f : FieldDeclaration) : Field :=
  ⟨f.name, [f.annotation, f.modifiers ++ " " ++ f.type ++ " " ++ f.name ++ ";"]⟩

/-- A parameter with its type. -/
structure Parameter where
  type : String
  name : String
  deriving DecidableEq, Repr

/-- The parameter as it is written. -/
def Parameter.text (p : Parameter) : String :=
  p.type ++ " " ++ p.name

/-- The parameters as they are written. -/
def parameterList (parameters : List Parameter) : String :=
  "(" ++ ", ".intercalate (parameters.map Parameter.text) ++ ")"

/-- The constructor: its parameters, and the fields that it sets to a parameter each. -/
structure ConstructorDeclaration where
  className : String
  parameters : List Parameter
  assignments : List (String × String)
  deriving DecidableEq, Repr

/-- The constructor as it is written. -/
def ConstructorDeclaration.method (k : ConstructorDeclaration) : Method :=
  ⟨constructorName, none, "protected " ++ k.className ++ parameterList k.parameters,
    some ("super(_bindingComponent, _root, _localFieldCount);" ::
      k.assignments.map fun a => "this." ++ a.1 ++ " = " ++ a.2 ++ ";")⟩

/-- A method with what is declared of it. -/
structure MethodDeclaration where
  annotation : Option String
  modifiers : String
  result : String
  name : String
  parameters : List Parameter
  body : Option (List String)
  deriving DecidableEq, Repr

/-- The method as it is written. -/
def MethodDeclaration.method (m : MethodDeclaration) : Method :=
  ⟨m.name, m.annotation,
    m.modifiers ++ " " ++ m.result ++ " " ++ m.name ++ parameterList m.parameters, m.body⟩

/-- What tells methods of one class apart: the name, and the types of the parameters. -/
def MethodDeclaration.key (m : MethodDeclaration) : String × List String :=
  (m.name, m.parameters.map Parameter.type)

/-! ## The members of the class of a layout -/

/-- The fields that the constructor has to set are final. -/
def finalModifiers : String := "public final"

def bindingFieldDeclaration (b : Binding) : FieldDeclaration :=
  ⟨"@androidx.annotation.NonNull", finalModifiers, b.type.text, b.name⟩

def bindableFieldDeclaration (v : Binding) : FieldDeclaration :=
  ⟨"@androidx.databinding.Bindable", "protected", v.type.text, bindableFieldName v⟩

/-- The fields as they come. -/
def listedFields (d : LayoutData) : List FieldDeclaration :=
  (fieldBindings d).map bindingFieldDeclaration ++ d.bindables.map bindableFieldDeclaration

/-- The fields in the order of their names. -/
def fieldDeclarations (d : LayoutData) : List FieldDeclaration :=
  (listedFields d).mergeSort fun f g => (compare f.name g.name).isLE

/-- The parameters that every constructor has. -/
def fixedParameterDeclarations : List Parameter :=
  [⟨"java.lang.Object", "_bindingComponent"⟩, ⟨"android.view.View", "_root"⟩,
    ⟨"int", "_localFieldCount"⟩]

def constructorDeclaration (d : LayoutData) : ConstructorDeclaration :=
  ⟨d.className,
    fixedParameterDeclarations ++ (fieldBindings d).map fun b => ⟨b.type.text, b.name⟩,
    (fieldBindings d).map fun b => (b.name, b.name)⟩

def setterDeclaration (v : Binding) : MethodDeclaration :=
  ⟨none, "public abstract", "void", "set" ++ capitalize v.name, [⟨v.type.text, "var1"⟩], none⟩

def getterDeclaration (v : Binding) : MethodDeclaration :=
  ⟨some "@androidx.annotation.Nullable", "public", v.type.text, "get" ++ capitalize v.name, [],
    some stubBody⟩

def factoryDeclaration (qualified name : String) (parameters : List Parameter) :
    MethodDeclaration :=
  ⟨some "@androidx.annotation.NonNull", "public static", qualified, name, parameters,
    some stubBody⟩

def factoryDeclarations (qualified : String) : List MethodDeclaration :=
  let inflater : Parameter := ⟨"android.view.LayoutInflater", "inflater"⟩
  let root : Parameter := ⟨"android.view.ViewGroup", "root"⟩
  let attach : Parameter := ⟨"boolean", "attachToRoot"⟩
  let view : Parameter := ⟨"android.view.View", "view"⟩
  let component : Parameter := ⟨"java.lang.Object", "component"⟩
  [factoryDeclaration qualified "inflate" [inflater],
   factoryDeclaration qualified "inflate" [inflater, root, attach],
   factoryDeclaration qualified "inflate" [inflater, root, attach, component],
   factoryDeclaration qualified "bind" [view],
   factoryDeclaration qualified "bind" [view, component]]

/-- The methods as they come, without the constructor. -/
def listedMethods (package : String) (d : LayoutData) : List MethodDeclaration :=
  d.bindables.flatMap (fun v => [setterDeclaration v, getterDeclaration v]) ++
    factoryDeclarations (packageOf package ++ "." ++ d.className)

/-- The methods in the order of their names. -/
def methodDeclarations (package : String) (d : LayoutData) : List MethodDeclaration :=
  (listedMethods package d).mergeSort fun m n => (compare m.name n.name).isLE

/-! ## What is written are the members -/

/-- The fields are sorted by their names. -/
theorem fieldDeclarations_eq (d : LayoutData) :
    fieldDeclarations d = sortedBy FieldDeclaration.name (listedFields d) :=
  mergeSort_compare_eq_sortedBy FieldDeclaration.name (listedFields d)

/-- The methods are sorted by their names. -/
theorem methodDeclarations_eq (package : String) (d : LayoutData) :
    methodDeclarations package d = sortedBy MethodDeclaration.name (listedMethods package d) :=
  mergeSort_compare_eq_sortedBy MethodDeclaration.name (listedMethods package d)

/-- **The fields that are written.** -/
theorem fields_eq (d : LayoutData) :
    fields d = (fieldDeclarations d).map FieldDeclaration.field := by
  have hlisted : (fieldBindings d).map bindingField ++ d.bindables.map bindableField =
      (listedFields d).map FieldDeclaration.field := by
    rw [listedFields, List.map_append, List.map_map, List.map_map]
    rfl
  rw [fields, hlisted, mergeSort_compare_eq_sortedBy, fieldDeclarations_eq]
  exact (map_sortedBy Field.name FieldDeclaration.field (listedFields d)).symm

theorem constructorDeclaration_method (d : LayoutData) :
    (constructorDeclaration d).method = constructor d.className (fieldBindings d) := by
  have hfixed : fixedParameterDeclarations.map Parameter.text = fixedParameters := by decide
  have hparameters : (constructorDeclaration d).parameters.map Parameter.text =
      fixedParameters ++ (fieldBindings d).map parameter := by
    rw [constructorDeclaration, List.map_append, hfixed, List.map_map]
    rfl
  rw [ConstructorDeclaration.method, constructor, Method.mk.injEq]
  refine ⟨rfl, rfl, ?_, ?_⟩
  · rw [parameterList, hparameters, String.append_assoc, String.append_assoc, String.append_assoc,
      String.append_assoc, String.append_assoc]
    rfl
  · rw [constructorDeclaration, List.map_map]
    rfl

theorem setterDeclaration_method (v : Binding) : (setterDeclaration v).method = setter v := by
  rw [MethodDeclaration.method, setter, Method.mk.injEq]
  refine ⟨rfl, rfl, String.toList_inj.1 ?_, rfl⟩
  simp [setterDeclaration, parameterList, Parameter.text]

theorem getterDeclaration_method (v : Binding) : (getterDeclaration v).method = getter v := by
  rw [MethodDeclaration.method, getter, Method.mk.injEq]
  refine ⟨rfl, rfl, String.toList_inj.1 ?_, rfl⟩
  simp [getterDeclaration, parameterList]

theorem factoryDeclaration_method (qualified name : String) (parameters : List Parameter) :
    (factoryDeclaration qualified name parameters).method =
      factory qualified name (parameters.map Parameter.text) := by
  rw [MethodDeclaration.method, factory, Method.mk.injEq]
  refine ⟨rfl, rfl, String.toList_inj.1 ?_, rfl⟩
  simp [factoryDeclaration, parameterList]

theorem map_method_factoryDeclarations (qualified : String) :
    (factoryDeclarations qualified).map MethodDeclaration.method = factories qualified := by
  rw [factoryDeclarations]
  simp only [List.map_cons, List.map_nil, factoryDeclaration_method, Parameter.text]
  rfl

/-- Every other method has a name that begins with a letter. -/
theorem exists_name_of_mem_listedMethods {m : MethodDeclaration}
    (hm : m ∈ listedMethods package d) : ∃ c cs, m.name.toList = c :: cs ∧ '<' < c := by
  rcases List.mem_append.1 hm with hm | hm
  · obtain ⟨v, -, hm⟩ := List.mem_flatMap.1 hm
    rcases List.mem_pair.1 hm with rfl | rfl
    · exact ⟨'s', _, String.toList_append, by decide⟩
    · exact ⟨'g', _, String.toList_append, by decide⟩
  · have hnames : m.name ∈ ["inflate", "inflate", "inflate", "bind", "bind"] :=
      List.mem_map_of_mem (f := MethodDeclaration.name) hm
    have hletters : ∀ name ∈ ["inflate", "inflate", "inflate", "bind", "bind"],
        name.toList = 'i' :: "nflate".toList ∨ name.toList = 'b' :: "ind".toList := by decide
    rcases hletters _ hnames with h | h
    · exact ⟨'i', _, h, by decide⟩
    · exact ⟨'b', _, h, by decide⟩

/-- The constructor is ordered before every other method. -/
theorem constructorName_lt {m : MethodDeclaration} (hm : m ∈ listedMethods package d) :
    constructorName < m.name := by
  obtain ⟨c, cs, hname, hc⟩ := exists_name_of_mem_listedMethods hm
  show constructorName.toList < m.name.toList
  rw [hname]
  exact List.Lex.rel hc

/-- **The methods that are written**, with the constructor before all others. -/
theorem methods_eq (package : String) (d : LayoutData) :
    methods package d = (constructorDeclaration d).method ::
      (methodDeclarations package d).map MethodDeclaration.method := by
  have hlisted : d.bindables.flatMap (fun b => [setter b, getter b]) ++
      factories (packageOf package ++ "." ++ d.className) =
        (listedMethods package d).map MethodDeclaration.method := by
    rw [listedMethods, List.map_append, map_method_factoryDeclarations, List.map_flatMap]
    simp only [List.map_cons, List.map_nil, setterDeclaration_method, getterDeclaration_method]
  have hfirst : ∀ m ∈ (listedMethods package d).map MethodDeclaration.method,
      (constructorDeclaration d).method.name ≤ m.name := by
    intro m hm
    obtain ⟨n, hn, rfl⟩ := List.mem_map.1 hm
    exact (constructorName_lt hn).le
  rw [methods, hlisted, ← constructorDeclaration_method, mergeSort_compare_eq_sortedBy,
    sortedBy_cons_of_first hfirst, methodDeclarations_eq]
  exact congrArg _
    (map_sortedBy Method.name MethodDeclaration.method (listedMethods package d)).symm

/-! ## When names are told apart -/

/-- Do different ids have different fields? -/
def IdsApart (d : LayoutData) : Prop :=
  ∀ b ∈ fieldBindings d, ∀ b' ∈ fieldBindings d, b.name = b'.name → b.rawName = b'.rawName

/-- Do different variables have different getters? -/
def VariablesApart (d : LayoutData) : Prop :=
  ∀ v ∈ d.bindables, ∀ v' ∈ d.bindables,
    capitalize v.name = capitalize v'.name → v.rawName = v'.rawName

/-- Is no field of an id named as the field of a variable? -/
def IdsApartFromVariables (d : LayoutData) : Prop :=
  ∀ b ∈ fieldBindings d, ∀ v ∈ d.bindables, b.name ≠ bindableFieldName v

/-- **When fields have different names.** -/
theorem nodup_map_name_fieldDeclarations :
    ((fieldDeclarations d).map FieldDeclaration.name).Nodup ↔
      ((fieldBindings d).map Binding.name).Nodup ∧
        (d.bindables.map fun v => capitalize v.name).Nodup ∧ IdsApartFromVariables d := by
  have hperm : ((fieldDeclarations d).map FieldDeclaration.name).Perm
      ((fieldBindings d).map Binding.name ++ d.bindables.map bindableFieldName) := by
    have hlisted : (listedFields d).map FieldDeclaration.name =
        (fieldBindings d).map Binding.name ++ d.bindables.map bindableFieldName := by
      rw [listedFields, List.map_append, List.map_map, List.map_map]
      rfl
    rw [← hlisted]
    exact (List.mergeSort_perm _ _).map _
  have hbindables : (d.bindables.map bindableFieldName).Nodup ↔
      (d.bindables.map fun v => capitalize v.name).Nodup := by
    have hcompose : d.bindables.map bindableFieldName =
        (d.bindables.map fun v => capitalize v.name).map fun name => "m" ++ name := by
      rw [List.map_map]
      rfl
    rw [hcompose]
    exact List.nodup_map_iff fun a b hab => (String.append_right_inj "m").1 hab
  rw [hperm.nodup_iff, List.nodup_append, hbindables]
  refine and_congr_right fun _ => and_congr_right fun _ => ?_
  constructor
  · intro h b hb v hv
    exact h _ (List.mem_map_of_mem hb) _ (List.mem_map_of_mem hv)
  · intro h x hx y hy
    obtain ⟨b, hb, rfl⟩ := List.mem_map.1 hx
    obtain ⟨v, hv, rfl⟩ := List.mem_map.1 hy
    exact h b hb v hv

/-- **When parameters of the constructor have different names.**  The fixed ones begin with
an underscore, so they are in nobody's way. -/
theorem nodup_map_name_parameters :
    ((constructorDeclaration d).parameters.map Parameter.name).Nodup ↔
      ((fieldBindings d).map Binding.name).Nodup := by
  have hnames : (constructorDeclaration d).parameters.map Parameter.name =
      ["_bindingComponent", "_root", "_localFieldCount"] ++
        (fieldBindings d).map Binding.name := by
    rw [constructorDeclaration, List.map_append, List.map_map]
    rfl
  have hfixed : ∀ name ∈ ["_bindingComponent", "_root", "_localFieldCount"],
      '_' ∈ name.toList := by decide
  rw [hnames, List.nodup_append]
  constructor
  · exact fun h => h.2.1
  · refine fun h => ⟨by decide, h, fun name hname other hother heq => ?_⟩
    obtain ⟨b, -, rfl⟩ := List.mem_map.1 hother
    have hunderscore := hfixed name hname
    rw [heq] at hunderscore
    exact underscore_notMem_camelCase b.rawName hunderscore

/-- The setter and the getter of a variable, as methods are told apart. -/
def accessorKeys (v : Binding) : List (String × List String) :=
  [("set" ++ capitalize v.name, [v.type.text]), ("get" ++ capitalize v.name, [])]

theorem set_ne_get (name name' : String) : "set" ++ name ≠ "get" ++ name' := by
  intro h
  have hletters := congrArg String.toList h
  rw [String.toList_append, String.toList_append] at hletters
  have hfirst : 's' = 'g' := (List.cons.inj hletters).1
  exact absurd hfirst (by decide)

/-- Accessors of variables are told apart by their getters alone. -/
theorem disjoint_accessorKeys :
    List.Disjoint (accessorKeys v) (accessorKeys v') ↔
      capitalize v.name ≠ capitalize v'.name := by
  constructor
  · intro h hname
    refine h (a := ("get" ++ capitalize v.name, [])) (by simp [accessorKeys]) ?_
    rw [hname]
    simp [accessorKeys]
  · intro hname key hkey hkey'
    rcases List.mem_pair.1 hkey with rfl | rfl
    · rcases List.mem_pair.1 hkey' with heq | heq
      · exact hname ((String.append_right_inj "set").1 (Prod.mk.inj heq).1)
      · exact set_ne_get _ _ (Prod.mk.inj heq).1
    · rcases List.mem_pair.1 hkey' with heq | heq
      · exact set_ne_get _ _ (Prod.mk.inj heq).1.symm
      · exact hname ((String.append_right_inj "get").1 (Prod.mk.inj heq).1)

theorem nodup_flatMap_accessorKeys {bindables : List Binding} :
    (bindables.flatMap accessorKeys).Nodup ↔
      (bindables.map fun v => capitalize v.name).Nodup := by
  have hpair : ∀ v, (accessorKeys v).Nodup := by
    intro v
    rw [accessorKeys, List.nodup_cons, List.mem_singleton]
    exact ⟨fun h => set_ne_get _ _ (Prod.mk.inj h).1, List.nodup_singleton _⟩
  have hnames : (bindables.map fun v => capitalize v.name).Nodup ↔
      bindables.Pairwise fun v v' => capitalize v.name ≠ capitalize v'.name :=
    List.pairwise_map
  rw [List.nodup_flatMap, hnames]
  constructor
  · exact fun h => h.2.imp fun hdisjoint => disjoint_accessorKeys.1 hdisjoint
  · exact fun h => ⟨fun v _ => hpair v, h.imp fun hname => disjoint_accessorKeys.2 hname⟩

/-- **When methods are told apart** by their names and the types of their parameters. -/
theorem nodup_map_key_methodDeclarations :
    ((methodDeclarations package d).map MethodDeclaration.key).Nodup ↔
      (d.bindables.map fun v => capitalize v.name).Nodup := by
  have hperm : ((methodDeclarations package d).map MethodDeclaration.key).Perm
      ((listedMethods package d).map MethodDeclaration.key) :=
    (List.mergeSort_perm _ _).map _
  have hkeys : (listedMethods package d).map MethodDeclaration.key =
      d.bindables.flatMap accessorKeys ++
        (factoryDeclarations "").map MethodDeclaration.key := by
    rw [listedMethods, List.map_append, List.map_flatMap]
    rfl
  have hfactories : ((factoryDeclarations "").map MethodDeclaration.key).Nodup ∧
      ∀ key ∈ (factoryDeclarations "").map MethodDeclaration.key,
        key.1.toList.head? ≠ some 's' ∧ key.1.toList.head? ≠ some 'g' := by decide
  rw [hperm.nodup_iff, hkeys, List.nodup_append, nodup_flatMap_accessorKeys]
  refine ⟨fun h => h.1, fun h => ⟨h, hfactories.1, fun key hkey other hother heq => ?_⟩⟩
  obtain ⟨hs, hg⟩ := hfactories.2 other hother
  obtain ⟨v, -, hkey⟩ := List.mem_flatMap.1 hkey
  rcases List.mem_pair.1 hkey with rfl | rfl
  · exact hs (by rw [← heq, String.toList_append]; rfl)
  · exact hg (by rw [← heq, String.toList_append]; rfl)

/-- **When the constructor sets every final field once.** -/
theorem count_assignments_eq_one_iff :
    (∀ f ∈ fieldDeclarations d, f.modifiers = finalModifiers →
      ((constructorDeclaration d).assignments.map Prod.fst).count f.name = 1) ↔
        ((fieldBindings d).map Binding.name).Nodup := by
  have hassigned : (constructorDeclaration d).assignments.map Prod.fst =
      (fieldBindings d).map Binding.name := by
    rw [constructorDeclaration, List.map_map]
    rfl
  have hmem : ∀ f, f ∈ fieldDeclarations d ↔ f ∈ listedFields d := fun f =>
    (List.mergeSort_perm _ _).mem_iff
  rw [hassigned, List.nodup_iff_count_eq_one]
  constructor
  · intro h name hname
    obtain ⟨b, hb, rfl⟩ := List.mem_map.1 hname
    exact h (bindingFieldDeclaration b)
      ((hmem _).2 (List.mem_append_left _ (List.mem_map_of_mem hb))) rfl
  · intro h f hf hfinal
    rcases List.mem_append.1 ((hmem f).1 hf) with hf | hf
    · obtain ⟨b, hb, rfl⟩ := List.mem_map.1 hf
      exact h b.name (List.mem_map_of_mem hb)
    · -- the field of a variable is not final
      obtain ⟨v, -, rfl⟩ := List.mem_map.1 hf
      have hmodifiers : "protected" ≠ finalModifiers := by decide
      exact absurd hfinal hmodifiers

/-! ## Snake case -/

/-- In snake case an id has the field of a variable only by the name that spells it out. -/
theorem name_eq_bindableFieldName_iff (hb : IsSnakeCase b.rawName) (hv : IsSnakeCase v.rawName) :
    b.name = bindableFieldName v ↔ b.rawName = "m_" ++ v.rawName := by
  have hfield : (bindableFieldName v).toList = 'm' :: joinedPieces v.rawName := by
    rw [bindableFieldName, String.toList_append, Binding.name, toList_capitalize_camelCase hv]
    rfl
  constructor
  · intro h
    have hwords := congrArg (fun s : String => words s.toList) h
    rw [Binding.name, words_camelCase hb, hfield, words, List.flatMap_cons,
      if_neg (by decide), ← words, words_joinedPieces hv] at hwords
    rw [← String.toList_inj, hwords, String.toList_append]
    rfl
  · intro h
    have hpieces : Text.pieces '_' b.rawName.toList =
        ['m'] :: Text.pieces '_' v.rawName.toList := by
      have hm : '_' ∉ ['m'] := by decide
      rw [h, String.toList_append]
      exact Text.pieces_append_cons hm _
    have hjoined : joinedPieces b.rawName = 'M' :: joinedPieces v.rawName := by
      have hm : Text.capitalizeChars ['m'] = ['M'] := by decide
      rw [joinedPieces, hpieces, List.flatMap_cons, hm]
      rfl
    have hM : Text.lower 'M' = ['m'] := by decide
    rw [← String.toList_inj, hfield, Binding.name, camelCase, hjoined]
    dsimp only
    rw [hM, String.toList_ofList]
    rfl

/-- **Names in snake case collide in one way only.**  Different ids have different fields
and different variables have different getters; the field of an id is that of a variable
if the id is the name of the variable with `m_` before it. -/
theorem apart_of_isSnakeCase (hids : ∀ b ∈ d.bindings, IsSnakeCase b.rawName)
    (hvariables : ∀ v ∈ d.bindables, IsSnakeCase v.rawName) :
    IdsApart d ∧ VariablesApart d ∧
      (IdsApartFromVariables d ↔
        ∀ b ∈ fieldBindings d, ∀ v ∈ d.bindables, b.rawName ≠ "m_" ++ v.rawName) := by
  have hfields : ∀ b ∈ fieldBindings d, IsSnakeCase b.rawName := fun b hb =>
    hids b (List.mem_filter.1 hb).1
  refine ⟨fun b hb b' hb' heq => camelCase_inj (hfields b hb) (hfields b' hb') heq,
    fun v hv v' hv' heq => capitalize_camelCase_inj (hvariables v hv) (hvariables v' hv') heq, ?_⟩
  refine forall₂_congr fun b hb => forall₂_congr fun v hv => ?_
  rw [Ne, name_eq_bindableFieldName_iff (hfields b hb) (hvariables v hv)]

end Stub

/-! ## What a layout file leads to -/

/-- Nothing that has been read has a name twice. -/
structure LayoutState.NamesOnce (s : LayoutState) : Prop where
  bindings : (s.bindings.map Binding.rawName).Nodup
  bindables : (s.bindables.map Binding.rawName).Nodup

namespace Layout

open Java Stub

variable {package : String} {types : LayoutTypes} {file : Path} {d : LayoutData}

theorem namesOnce_readTag {s s' : LayoutState} {tag : Markup.Tag} (hs : s.NamesOnce)
    (h : readTag package types file s tag = .ok s') : s'.NamesOnce := by
  cases readTag_eq_ok_iff.1 h with
  | imported => exact ⟨hs.bindings, hs.bindables⟩
  | declared => exact ⟨hs.bindings, nodup_keepFirst hs.bindables _⟩
  | unnamed => exact hs
  | bound hname rawName hid b => exact ⟨nodup_keepFirst hs.bindings b, hs.bindables⟩

/-- **A layout has no id and no variable twice.** -/
theorem nodup_rawName_of_readContents {contents : String}
    (h : readContents package types file contents = .ok d) :
    (d.bindings.map Binding.rawName).Nodup ∧ (d.bindables.map Binding.rawName).Nodup := by
  obtain ⟨s, hs, -, rfl⟩ := readTags_eq_ok_iff.1 h
  have honce : s.NamesOnce := by
    refine foldlM_induction (P := LayoutState.NamesOnce) hs ⟨List.nodup_nil, List.nodup_nil⟩ ?_
    exact fun s hs tag _ s' h' => namesOnce_readTag hs h'
  exact ⟨honce.bindings, honce.bindables⟩

/-- **When members of a binding class collide.**  Let a layout be read.  What is written of
its class are the fields, the constructor and the methods that are declared.  The fields
have different names exactly when different ids have different fields, different variables
have different getters, and no field of an id is named as the field of a variable.  The
parameters of the constructor have different names exactly when different ids have
different fields, and this is also when every final field is set exactly once.  No two
methods have one name and the same types of parameters exactly when different variables
have different getters. -/
theorem members_of_readContents {package : String} {types : LayoutTypes} {file : Path}
    {contents : String} {d : LayoutData}
    (h : readContents package types file contents = .ok d) (generated : String) :
    (fields d = (fieldDeclarations d).map FieldDeclaration.field ∧
      methods generated d = (constructorDeclaration d).method ::
        (methodDeclarations generated d).map MethodDeclaration.method) ∧
    (((fieldDeclarations d).map FieldDeclaration.name).Nodup ↔
      IdsApart d ∧ VariablesApart d ∧ IdsApartFromVariables d) ∧
    (((constructorDeclaration d).parameters.map Parameter.name).Nodup ↔ IdsApart d) ∧
    (((methodDeclarations generated d).map MethodDeclaration.key).Nodup ↔ VariablesApart d) ∧
    ((∀ f ∈ fieldDeclarations d, f.modifiers = finalModifiers →
      ((constructorDeclaration d).assignments.map Prod.fst).count f.name = 1) ↔ IdsApart d) := by
  obtain ⟨hbindings, hbindables⟩ := nodup_rawName_of_readContents h
  have hfields : ((fieldBindings d).map Binding.rawName).Nodup :=
    hbindings.sublist (List.filter_sublist.map _)
  have hids : ((fieldBindings d).map Binding.name).Nodup ↔ IdsApart d :=
    nodup_map_iff_of_nodup hfields
  have hvariables : (d.bindables.map fun v => capitalize v.name).Nodup ↔ VariablesApart d :=
    nodup_map_iff_of_nodup hbindables
  refine ⟨⟨fields_eq d, methods_eq generated d⟩, ?_, ?_, ?_, ?_⟩
  · rw [nodup_map_name_fieldDeclarations, hids, hvariables]
  · rw [nodup_map_name_parameters, hids]
  · rw [nodup_map_key_methodDeclarations, hvariables]
  · rw [count_assignments_eq_one_iff, hids]

/-- A layout with a variable and a view. -/
def oneOfEach : LayoutData :=
  ⟨"a", some ⟨"layout/a.xml"⟩, [⟨"v", .named "android.view.View", .view⟩],
    [⟨"user", .primitive "int", .variable⟩]⟩

/-- The members of its class do not collide. -/
theorem members_of_readContents_oneOfEach :
    readContents "p" ⟨.empty, .empty⟩ ⟨"layout/a.xml"⟩
      "<layout><variable name='user' type='int'/><View android:id='@+id/v'/></layout>" =
        .ok oneOfEach ∧
    ((fieldDeclarations oneOfEach).map FieldDeclaration.name).Nodup ∧
    ((constructorDeclaration oneOfEach).parameters.map Parameter.name).Nodup ∧
    ((methodDeclarations "p" oneOfEach).map MethodDeclaration.key).Nodup ∧
    ∀ f ∈ fieldDeclarations oneOfEach, f.modifiers = finalModifiers →
      ((constructorDeclaration oneOfEach).assignments.map Prod.fst).count f.name = 1 := by
  have hread : readContents "p" ⟨.empty, .empty⟩ ⟨"layout/a.xml"⟩
      "<layout><variable name='user' type='int'/><View android:id='@+id/v'/></layout>" =
        .ok oneOfEach := by decide +kernel
  obtain ⟨-, hfields, hparameters, hmethods, hassigned⟩ := members_of_readContents hread "p"
  have hids : IdsApart oneOfEach := by
    intro b hb b' hb' _
    rw [List.mem_singleton.1 (List.mem_filter.1 hb).1,
      List.mem_singleton.1 (List.mem_filter.1 hb').1]
  have hvariables : VariablesApart oneOfEach := by
    intro v hv v' hv' _
    rw [List.mem_singleton.1 hv, List.mem_singleton.1 hv']
  have hbetween : IdsApartFromVariables oneOfEach := by
    intro b hb v hv
    rw [List.mem_singleton.1 (List.mem_filter.1 hb).1, List.mem_singleton.1 hv]
    decide
  exact ⟨hread, hfields.2 ⟨hids, hvariables, hbetween⟩, hparameters.2 hids,
    hmethods.2 hvariables, hassigned.2 hids⟩

/-- Two views and two variables, whose names are one in camel case. -/
def lookalikes : LayoutData :=
  ⟨"a", some ⟨"layout/a.xml"⟩,
    [⟨"a_b", .named "android.view.View", .view⟩, ⟨"aB", .named "android.view.View", .view⟩],
    [⟨"a_b", .primitive "int", .variable⟩, ⟨"aB", .primitive "int", .variable⟩]⟩

/-- **Members collide.**  A field, a parameter, a setter and a getter are declared twice,
and a final field is set twice. -/
theorem members_collide :
    readContents "p" ⟨.empty, .empty⟩ ⟨"layout/a.xml"⟩
      ("<layout><variable name='a_b' type='int'/><variable name='aB' type='int'/>" ++
        "<View android:id='@+id/a_b'/><View android:id='@+id/aB'/></layout>") =
        .ok lookalikes ∧
    ¬((fieldDeclarations lookalikes).map FieldDeclaration.name).Nodup ∧
    ¬((constructorDeclaration lookalikes).parameters.map Parameter.name).Nodup ∧
    ¬((methodDeclarations "p" lookalikes).map MethodDeclaration.key).Nodup ∧
    ¬∀ f ∈ fieldDeclarations lookalikes, f.modifiers = finalModifiers →
      ((constructorDeclaration lookalikes).assignments.map Prod.fst).count f.name = 1 := by
  have hread : readContents "p" ⟨.empty, .empty⟩ ⟨"layout/a.xml"⟩
      ("<layout><variable name='a_b' type='int'/><variable name='aB' type='int'/>" ++
        "<View android:id='@+id/a_b'/><View android:id='@+id/aB'/></layout>") =
        .ok lookalikes := by decide +kernel
  have hnames : ¬((fieldBindings lookalikes).map Binding.name).Nodup := by decide
  have haccessors : ¬(lookalikes.bindables.map fun v => capitalize v.name).Nodup := by
    decide
  refine ⟨hread, ?_, ?_, ?_, ?_⟩
  · exact fun h => hnames (nodup_map_name_fieldDeclarations.1 h).1
  · exact fun h => hnames (nodup_map_name_parameters.1 h)
  · exact fun h => haccessors (nodup_map_key_methodDeclarations.1 h)
  · exact fun h => hnames (count_assignments_eq_one_iff.1 h)

end Layout
end ResourceStubs
