import ResourceStubs.Proofs.Binding.StubMembers
import ResourceStubs.Proofs.Java.SourceLines

/-!
# The source of a binding class

A binding class is written from lists that are made one by one: its fields, the parameters
and the assignments of its constructor, and its accessors.  Its source is the text of these
members and nothing else (`body_render`).

Fields and methods are sorted by their names alone.  Sorting is stable, so members of one sort
come out as they would if they were sorted without the others (`filter_sortedBy`).  This is
how `members_agree` says what the lists have in common: final fields are the bindings that
the constructor takes and sets, in the order of their names, and the fields, the setters and
the getters of bindables are three readings of one list.

Two tags stand for no view, and the bindings of all other types are `viewBindings`.
-/

namespace ResourceStubs
namespace Stub

open Java Java.SourceText

variable {d : LayoutData} {package : String}

/-! ## The text of the class -/

/-- A method as it stands in the class. -/
def Method.text (m : Method) : String :=
  String.join (m.annotation.toList.map (lineText 1)) ++
    match m.body with
    | some body => blockText 1 m.signature body
    | none => lineText 1 (m.signature ++ ";")

/-- The fields as they stand in the class: one text, unless there is no field. -/
def fieldTexts (fields : List Field) : List String :=
  if fields.isEmpty then []
  else [String.join ((fields.flatMap Field.lines).map (lineText 1))]

/-- The text of a class with the given members.  There is an empty line between the fields
and the methods, and between two methods. -/
def classText (className : String) (fields : List Field) (methods : List Method) : String :=
  lineText 0 ("public abstract class " ++ className ++
    " extends androidx.databinding.ViewDataBinding" ++ " \x7b") ++
      "\n".intercalate (fieldTexts fields ++ methods.map Method.text) ++ lineText 0 "\x7d"

theorem addMethod_eq {s : SourceText} (hs : s.depth = 1) (m : Method) :
    addMethod s m = ⟨s.content ++ m.text, 1⟩ := by
  unfold addMethod Method.text
  cases m.body with
  | none =>
      show (s.lines m.annotation.toList).line (m.signature ++ ";") = _
      rw [line_eq, lines_eq, hs, String.append_assoc]
  | some body =>
      show (((s.lines m.annotation.toList).openBlock m.signature).lines body).closeBlock = _
      rw [closeBlock_lines_openBlock, lines_eq, hs, String.append_assoc]

theorem addMethods_eq {s : SourceText} (hs : s.depth = 1) (afterFields : Bool) (first : Method)
    (rest : List Method) :
    addMethods s afterFields (first :: rest) =
      ⟨s.content ++ (if afterFields then "\n" else "") ++
        "\n".intercalate ((first :: rest).map Method.text), 1⟩ := by
  rw [addMethods, addSpacedMethods]
  cases afterFields with
  | false =>
      show rest.foldl (fun s m => addMethod s.blank m) (addMethod s first) = _
      rw [foldl_blank_eq addMethod_eq hs, if_neg Bool.false_ne_true, String.append_empty]
  | true =>
      show rest.foldl (fun s m => addMethod s.blank m) (addMethod s.blank first) = _
      rw [foldl_blank_eq addMethod_eq (show s.blank.depth = 1 from hs), if_pos rfl, blank_eq]

theorem intercalate_fieldTexts (fields : List Field) (first : String) (rest : List String) :
    "\n".intercalate (fieldTexts fields ++ first :: rest) =
      String.join ((fields.flatMap Field.lines).map (lineText 1)) ++
        (if !fields.isEmpty then "\n" else "") ++ "\n".intercalate (first :: rest) := by
  cases fields with
  | nil => exact (String.empty_append).symm
  | cons f fields =>
      show "\n".intercalate (_ :: first :: rest) = _
      rw [String.intercalate_cons_cons]
      rfl

/-- **The source is the text of its members.** -/
theorem body_render (package : String) (d : LayoutData) :
    (render package d).body = classText d.className (fields d) (methods package d) := by
  rw [render, methods_eq, lines_openBlock_start, addMethods_eq rfl, closeBlock_eq, classText,
    List.map_cons, intercalate_fieldTexts]
  simp only [String.append_assoc]

/-! ## Members of one sort -/

/-- The fields with the given modifiers, as they come in the class. -/
def fieldsWith (modifiers : String) (d : LayoutData) : List FieldDeclaration :=
  (fieldDeclarations d).filter fun f => f.modifiers = modifiers

/-- The methods with the given modifiers, as they come in the class. -/
def methodsWith (modifiers package : String) (d : LayoutData) : List MethodDeclaration :=
  (methodDeclarations package d).filter fun m => m.modifiers = modifiers

/-- Fields of one sort are sorted as if there were no others. -/
theorem fieldsWith_eq (modifiers : String) (d : LayoutData) :
    fieldsWith modifiers d = sortedBy FieldDeclaration.name
      ((listedFields d).filter fun f => f.modifiers = modifiers) := by
  rw [fieldsWith, fieldDeclarations_eq, filter_sortedBy]

/-- Methods of one sort are sorted as if there were no others. -/
theorem methodsWith_eq (modifiers package : String) (d : LayoutData) :
    methodsWith modifiers package d = sortedBy MethodDeclaration.name
      ((listedMethods package d).filter fun m => m.modifiers = modifiers) := by
  rw [methodsWith, methodDeclarations_eq, filter_sortedBy]

/-- The bindings whose type is neither that of the tag `fragment` nor that of the tag
`layout`. -/
def viewBindings (d : LayoutData) : List Binding :=
  d.bindings.filter fun b =>
    b.type.text ≠ "android.widget.fragment" ∧ b.type.text ≠ "android.widget.layout"

theorem fieldBindings_eq (d : LayoutData) : fieldBindings d = viewBindings d := by
  simp [fieldBindings, viewBindings, viewlessTypes]

theorem type_of_mem_viewBindings {b : Binding} (hb : b ∈ viewBindings d) :
    b.type.text ≠ "android.widget.fragment" ∧ b.type.text ≠ "android.widget.layout" :=
  of_decide_eq_true (List.mem_filter.1 hb).2

/-- The fields of the bindings. -/
theorem fieldsWith_final (d : LayoutData) :
    fieldsWith finalModifiers d =
      (sortedBy Binding.name (viewBindings d)).map bindingFieldDeclaration := by
  have hlisted : ((listedFields d).filter fun f => f.modifiers = finalModifiers) =
      (viewBindings d).map bindingFieldDeclaration := by
    simp [listedFields, fieldBindings_eq, List.filter_map, Function.comp_def,
      bindingFieldDeclaration, bindableFieldDeclaration, finalModifiers]
  rw [fieldsWith_eq, hlisted]
  exact (map_sortedBy FieldDeclaration.name bindingFieldDeclaration _).symm

/-- The bindables in the order of the names of their accessors. -/
def accessorOrder (d : LayoutData) : List Binding :=
  sortedBy (fun v => capitalize v.name) d.bindables

/-- Whatever is named after the bindables, with some text before each name, is in one
order. -/
theorem sortedBy_map_bindables {α : Type} (key : α → String) (f : Binding → α) (p : String)
    (hkey : ∀ v, key (f v) = p ++ capitalize v.name) (d : LayoutData) :
    sortedBy key (d.bindables.map f) = (accessorOrder d).map f := by
  rw [← map_sortedBy, funext hkey, sortedBy_append_prefix, accessorOrder]

/-- The fields of the bindables. -/
theorem fieldsWith_protected (d : LayoutData) :
    fieldsWith "protected" d = (accessorOrder d).map bindableFieldDeclaration := by
  have hlisted : ((listedFields d).filter fun f => f.modifiers = "protected") =
      d.bindables.map bindableFieldDeclaration := by
    simp [listedFields, List.filter_map, Function.comp_def, bindingFieldDeclaration,
      bindableFieldDeclaration, finalModifiers]
  rw [fieldsWith_eq, hlisted]
  exact sortedBy_map_bindables FieldDeclaration.name bindableFieldDeclaration "m"
    (fun _ => rfl) d

/-- The accessors of one sort, which is told by their modifiers. -/
theorem methodsWith_accessor {modifiers front : String} {accessor : Binding → MethodDeclaration}
    (hstatic : "public static" ≠ modifiers)
    (haccessor : ∀ v, ([setterDeclaration v, getterDeclaration v].filter fun m =>
      m.modifiers = modifiers) = [accessor v])
    (hname : ∀ v, (accessor v).name = front ++ capitalize v.name)
    (package : String) (d : LayoutData) :
    methodsWith modifiers package d = (accessorOrder d).map accessor := by
  have hfactories : ((factoryDeclarations (packageOf package ++ "." ++ d.className)).filter
      fun m => m.modifiers = modifiers) = [] := by
    simp [factoryDeclarations, factoryDeclaration, hstatic]
  have hlisted : ((listedMethods package d).filter fun m => m.modifiers = modifiers) =
      d.bindables.map accessor := by
    rw [listedMethods, List.filter_append, hfactories, List.append_nil, List.filter_flatMap,
      List.map_eq_flatMap]
    exact congrArg d.bindables.flatMap (funext haccessor)
  rw [methodsWith_eq, hlisted]
  exact sortedBy_map_bindables MethodDeclaration.name accessor front hname d

/-- `bind` comes before `inflate`, and each in the order that its overloads are listed in. -/
theorem sortedBy_factoryDeclarations (qualified : String) :
    sortedBy MethodDeclaration.name (factoryDeclarations qualified) =
      (factoryDeclarations qualified).drop 3 ++ (factoryDeclarations qualified).take 3 := by
  refine eq_of_pairwise_of_filter (pairwise_sortedBy _ _) ?_ fun name => ?_
  · have hnames : ["bind", "bind", "inflate", "inflate", "inflate"].Pairwise
        fun s t : String => s ≤ t := by decide
    exact List.pairwise_map.1 hnames
  · rw [filter_key_sortedBy]
    rcases eq_or_ne "bind" name with rfl | hne
    · rfl
    · simp [factoryDeclarations, factoryDeclaration, List.filter_cons, hne]

/-- The static methods. -/
theorem methodsWith_static (package : String) (d : LayoutData) :
    methodsWith "public static" package d =
      (factoryDeclarations (packageOf package ++ "." ++ d.className)).drop 3 ++
        (factoryDeclarations (packageOf package ++ "." ++ d.className)).take 3 := by
  have hlisted : ((listedMethods package d).filter fun m => m.modifiers = "public static") =
      factoryDeclarations (packageOf package ++ "." ++ d.className) := by
    simp [listedMethods, List.filter_flatMap, setterDeclaration, getterDeclaration,
      factoryDeclarations, factoryDeclaration]
  rw [methodsWith_eq, hlisted, sortedBy_factoryDeclarations]

/-! ## All members -/

/-- There are no other fields. -/
theorem modifiers_of_mem_fieldDeclarations {f : FieldDeclaration} (hf : f ∈ fieldDeclarations d) :
    f.modifiers = finalModifiers ∨ f.modifiers = "protected" := by
  rw [fieldDeclarations, List.mem_mergeSort] at hf
  rcases List.mem_append.1 hf with hf | hf
  · obtain ⟨b, -, rfl⟩ := List.mem_map.1 hf
    exact Or.inl rfl
  · obtain ⟨v, -, rfl⟩ := List.mem_map.1 hf
    exact Or.inr rfl

/-- There are no other methods. -/
theorem modifiers_of_mem_methodDeclarations {m : MethodDeclaration}
    (hm : m ∈ methodDeclarations package d) :
    m.modifiers = "public abstract" ∨ m.modifiers = "public" ∨ m.modifiers = "public static" := by
  rw [methodDeclarations, List.mem_mergeSort] at hm
  rcases List.mem_append.1 hm with hm | hm
  · obtain ⟨v, -, hm⟩ := List.mem_flatMap.1 hm
    rcases List.mem_pair.1 hm with rfl | rfl
    · exact Or.inl rfl
    · exact Or.inr (Or.inl rfl)
  · refine Or.inr (Or.inr ?_)
    rw [factoryDeclarations] at hm
    simp only [List.mem_cons, List.not_mem_nil, or_false] at hm
    rcases hm with rfl | rfl | rfl | rfl | rfl <;> rfl

/-- The bindings of tags that stand for no view are of no account. -/
theorem render_viewBindings (package : String) (d : LayoutData) :
    render package { d with bindings := viewBindings d } = render package d := by
  have hbindings : fieldBindings { d with bindings := viewBindings d } = fieldBindings d := by
    rw [fieldBindings_eq, fieldBindings_eq, viewBindings, viewBindings, List.filter_filter]
    simp only [Bool.and_self]
  have hfields : fields { d with bindings := viewBindings d } = fields d := by
    rw [fields, hbindings]
    rfl
  have hmethods : methods package { d with bindings := viewBindings d } = methods package d := by
    rw [methods, hbindings]
    rfl
  rw [render, hfields, hmethods]
  rfl

/-! ## What the members have in common -/

/-- The final fields and the constructor are of the same bindings. -/
structure BindingMembers (d : LayoutData) : Prop where
  /-- The final fields are in the order of their names. -/
  finals : fieldsWith finalModifiers d =
    (sortedBy Binding.name (viewBindings d)).map bindingFieldDeclaration
  /-- Behind the fixed parameters are the types and the names of these fields, in the order
  of the bindings. -/
  parameters : (constructorDeclaration d).parameters =
    fixedParameterDeclarations ++ (viewBindings d).map fun b => ⟨b.type.text, b.name⟩
  /-- The fields are set in the same order. -/
  assignments : (constructorDeclaration d).assignments =
    (viewBindings d).map fun b => (b.name, b.name)
  /-- No final field has the type of a tag without a view. -/
  type_finals : ∀ f ∈ fieldsWith finalModifiers d,
    f.type ≠ "android.widget.fragment" ∧ f.type ≠ "android.widget.layout"
  /-- No parameter has the type of a tag without a view. -/
  type_parameters : ∀ p ∈ (constructorDeclaration d).parameters,
    p.type ≠ "android.widget.fragment" ∧ p.type ≠ "android.widget.layout"

theorem bindingMembers (d : LayoutData) : BindingMembers d where
  finals := fieldsWith_final d
  parameters := by rw [← fieldBindings_eq, constructorDeclaration]
  assignments := by rw [← fieldBindings_eq, constructorDeclaration]
  type_finals := by
    intro f hf
    rw [fieldsWith_final] at hf
    obtain ⟨b, hb, rfl⟩ := List.mem_map.1 hf
    exact type_of_mem_viewBindings ((sortedBy_perm _ _).mem_iff.1 hb)
  type_parameters := by
    intro p hp
    rw [constructorDeclaration, fieldBindings_eq] at hp
    rcases List.mem_append.1 hp with hp | hp
    · have hfixed : ∀ p ∈ fixedParameterDeclarations,
          p.type ≠ "android.widget.fragment" ∧ p.type ≠ "android.widget.layout" := by decide
      exact hfixed p hp
    · obtain ⟨b, hb, rfl⟩ := List.mem_map.1 hp
      exact type_of_mem_viewBindings hb

/-- Every bindable has one field, one setter and one getter, all in one order.  All other
methods are the static ones. -/
structure BindableMembers (package : String) (d : LayoutData) : Prop where
  perm : (accessorOrder d).Perm d.bindables
  fields : fieldsWith "protected" d = (accessorOrder d).map fun v =>
    ⟨"@androidx.databinding.Bindable", "protected", v.type.text, "m" ++ capitalize v.name⟩
  setters : methodsWith "public abstract" package d = (accessorOrder d).map setterDeclaration
  getters : methodsWith "public" package d = (accessorOrder d).map getterDeclaration
  statics : methodsWith "public static" package d =
    (factoryDeclarations (packageOf package ++ "." ++ d.className)).drop 3 ++
      (factoryDeclarations (packageOf package ++ "." ++ d.className)).take 3
  modifiers_fields : ∀ f ∈ fieldDeclarations d,
    f.modifiers = finalModifiers ∨ f.modifiers = "protected"
  modifiers_methods : ∀ m ∈ methodDeclarations package d,
    m.modifiers = "public abstract" ∨ m.modifiers = "public" ∨ m.modifiers = "public static"

theorem bindableMembers (package : String) (d : LayoutData) : BindableMembers package d where
  perm := sortedBy_perm _ _
  fields := fieldsWith_protected d
  setters := methodsWith_accessor (by decide) (fun _ => rfl) (fun _ => rfl) package d
  getters := methodsWith_accessor (by decide) (fun _ => rfl) (fun _ => rfl) package d
  statics := methodsWith_static package d
  modifiers_fields _ := modifiers_of_mem_fieldDeclarations
  modifiers_methods _ := modifiers_of_mem_methodDeclarations

/-- Members are in the order of their names. -/
structure MembersOrdered (package : String) (d : LayoutData) : Prop where
  fields : (fieldDeclarations d).Pairwise fun f g => f.name ≤ g.name
  methods : (methodDeclarations package d).Pairwise fun m n => m.name ≤ n.name
  /-- The name that the constructor is ordered by stands before all others. -/
  constructor : ∀ m ∈ methodDeclarations package d,
    (constructorDeclaration d).method.name < m.name
  /-- Methods of one name are in the order in which they are listed. -/
  overloads : ∀ name, ((methodDeclarations package d).filter fun m => m.name = name) =
    (listedMethods package d).filter fun m => m.name = name

theorem membersOrdered (package : String) (d : LayoutData) : MembersOrdered package d where
  fields := by
    rw [fieldDeclarations_eq]
    exact pairwise_sortedBy _ _
  methods := by
    rw [methodDeclarations_eq]
    exact pairwise_sortedBy _ _
  constructor _ hm := constructorName_lt (List.mem_mergeSort.1 hm)
  overloads name := by rw [methodDeclarations_eq, filter_key_sortedBy]

/-- **The members of a binding class agree.**  The source is the text of the declared members
and nothing else, the constructor before all other methods.  The final fields are those of the
bindings that the constructor takes and sets.  Bindings of tags without a view leave no trace.
The protected fields, the setters and the getters are one of each for every bindable.  Fields
and methods are in the order of their names. -/
theorem members_agree (package : String) (d : LayoutData) :
    (render package d).body = classText d.className
      ((fieldDeclarations d).map FieldDeclaration.field)
      ((constructorDeclaration d).method ::
        (methodDeclarations package d).map MethodDeclaration.method) ∧
    BindingMembers d ∧
    render package { d with bindings := viewBindings d } = render package d ∧
    BindableMembers package d ∧
    MembersOrdered package d := by
  refine ⟨?_, bindingMembers d, render_viewBindings package d, bindableMembers package d,
    membersOrdered package d⟩
  rw [body_render, fields_eq, methods_eq]

/-- A layout with two views, a fragment and a variable. -/
def withFragment : LayoutData :=
  ⟨"main", some ⟨"layout/main.xml"⟩,
    [⟨"title_view", .named "android.widget.TextView", .view⟩,
      ⟨"player", .named "android.widget.fragment", .view⟩,
      ⟨"button", .named "android.widget.Button", .view⟩],
    [⟨"user", .named "java.lang.String", .variable⟩]⟩

/-- The fields of its class in one text, the constructor and the methods. -/
def withFragmentMembers : List String :=
  ["  @androidx.annotation.NonNull\n" ++
      "  public final android.widget.Button button;\n" ++
      "  @androidx.databinding.Bindable\n" ++
      "  protected java.lang.String mUser;\n" ++
      "  @androidx.annotation.NonNull\n" ++
      "  public final android.widget.TextView titleView;\n",
    "  protected MainBinding(java.lang.Object _bindingComponent, " ++
      "android.view.View _root, int _localFieldCount, " ++
      "android.widget.TextView titleView, android.widget.Button button) \x7b\n" ++
      "    super(_bindingComponent, _root, _localFieldCount);\n" ++
      "    this.titleView = titleView;\n" ++
      "    this.button = button;\n" ++
      "  \x7d\n",
    "  @androidx.annotation.NonNull\n" ++
      "  public static p.databinding.MainBinding bind(android.view.View view) \x7b\n" ++
      "    throw new RuntimeException(\"Stub!\");\n  \x7d\n",
    "  @androidx.annotation.NonNull\n" ++
      "  public static p.databinding.MainBinding bind(" ++
      "android.view.View view, java.lang.Object component) \x7b\n" ++
      "    throw new RuntimeException(\"Stub!\");\n  \x7d\n",
    "  @androidx.annotation.Nullable\n" ++
      "  public java.lang.String getUser() \x7b\n" ++
      "    throw new RuntimeException(\"Stub!\");\n  \x7d\n",
    "  @androidx.annotation.NonNull\n" ++
      "  public static p.databinding.MainBinding inflate(" ++
      "android.view.LayoutInflater inflater) \x7b\n" ++
      "    throw new RuntimeException(\"Stub!\");\n  \x7d\n",
    "  @androidx.annotation.NonNull\n" ++
      "  public static p.databinding.MainBinding inflate(" ++
      "android.view.LayoutInflater inflater, " ++
      "android.view.ViewGroup root, boolean attachToRoot) \x7b\n" ++
      "    throw new RuntimeException(\"Stub!\");\n  \x7d\n",
    "  @androidx.annotation.NonNull\n" ++
      "  public static p.databinding.MainBinding inflate(" ++
      "android.view.LayoutInflater inflater, " ++
      "android.view.ViewGroup root, boolean attachToRoot, " ++
      "java.lang.Object component) \x7b\n" ++
      "    throw new RuntimeException(\"Stub!\");\n  \x7d\n",
    "  public abstract void setUser(java.lang.String var1);\n"]

/-- The fragment leaves no trace.  The fields are in the order of their names, and the
constructor has the views in the order of the layout. -/
theorem members_agree_withFragment :
    (render "p" withFragment).body =
      "public abstract class MainBinding " ++
        "extends androidx.databinding.ViewDataBinding \x7b\n" ++
          "\n".intercalate withFragmentMembers ++ "\x7d\n" ∧
    fieldsWith finalModifiers withFragment =
      [⟨"@androidx.annotation.NonNull", "public final", "android.widget.Button", "button"⟩,
        ⟨"@androidx.annotation.NonNull", "public final", "android.widget.TextView",
          "titleView"⟩] ∧
    (constructorDeclaration withFragment).assignments =
      [("titleView", "titleView"), ("button", "button")] ∧
    render "p" { withFragment with bindings :=
      [⟨"title_view", .named "android.widget.TextView", .view⟩,
        ⟨"button", .named "android.widget.Button", .view⟩] } = render "p" withFragment := by
  obtain ⟨hsource, hbindings, hviews, -, -⟩ := members_agree "p" withFragment
  have hheader : lineText 0 ("public abstract class " ++ withFragment.className ++
      " extends androidx.databinding.ViewDataBinding" ++ " \x7b") =
        "public abstract class MainBinding " ++
          "extends androidx.databinding.ViewDataBinding \x7b\n" := by decide +kernel
  have hmembers : fieldTexts ((fieldDeclarations withFragment).map FieldDeclaration.field) ++
      ((constructorDeclaration withFragment).method ::
        (methodDeclarations "p" withFragment).map MethodDeclaration.method).map Method.text =
          withFragmentMembers := by
    rw [fieldDeclarations_eq, methodDeclarations_eq, sortedBy_eq_insertionSort,
      sortedBy_eq_insertionSort]
    decide +kernel
  refine ⟨?_, ?_, hbindings.assignments.trans (by decide), hviews⟩
  · rw [hsource, classText, hheader, hmembers]
    rfl
  · rw [hbindings.finals, sortedBy_eq_insertionSort]
    decide +kernel

end Stub
end ResourceStubs
