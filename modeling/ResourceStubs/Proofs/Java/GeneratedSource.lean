import Mathlib.Data.Nat.Digits.Defs
import ResourceStubs.Binding.Stub
import ResourceStubs.Proofs.Binding.BindableNames
import ResourceStubs.Proofs.Java.NameSpelling
import ResourceStubs.Proofs.Java.Nesting
import ResourceStubs.Proofs.Symbol.FieldBlocks

/-!
# The generated sources are well nested

The class `R`, the class `BR`, the binding classes and their interface are written from names,
from types and from the values of arrays.  Names change their spelling on the way, which makes
no brace and no line break (`IsFlat.camelCase`, `IsFlat.bindingClassName`, `IsFlat.identifier`),
and the braces of an array are closed on its own line (`isClosed_placeholderArray`).  So every
line that stands in a block is a statement, and every method can be written
(`RClass.isStatement_of_mem_fields`, `Stub.isWritable_of_mem_methods`).  From this and from what
each step of writing keeps follows `wellNested_sources`, for all four kinds of source files.
-/

namespace ResourceStubs

open Java Java.SourceText

/-! ## Texts without braces and line breaks -/

namespace Java

variable {name : String}

theorem isCaseless_of_mem_structuralChars {c : Char} (h : c ∈ structuralChars) :
    Text.IsCaseless c ∧ c ≠ '_' ∧ c ∉ "Binding".toList := by
  have hall : (structuralChars.all fun c =>
      decide (Text.IsCaseless c ∧ c ≠ '_' ∧ c ∉ "Binding".toList)) = true := by decide +kernel
  exact of_decide_eq_true (List.all_eq_true.1 hall c h)

theorem IsFlat.camelCase (h : IsFlat name) : IsFlat (camelCase name) := by
  intro c hc hstructural
  obtain ⟨hcaseless, hne, -⟩ := isCaseless_of_mem_structuralChars hstructural
  rw [mem_camelCase_iff hcaseless, mem_joinedPieces_iff hcaseless hne] at hc
  exact h c hc hstructural

theorem IsFlat.capitalize (h : IsFlat name) : IsFlat (capitalize name) := by
  intro c hc hstructural
  obtain ⟨hcaseless, -⟩ := isCaseless_of_mem_structuralChars hstructural
  exact h c ((mem_capitalize_iff hcaseless).1 hc) hstructural

theorem IsFlat.bindingClassName (h : IsFlat name) : IsFlat (bindingClassName name) := by
  intro c hc hstructural
  obtain ⟨hcaseless, hne, hsuffix⟩ := isCaseless_of_mem_structuralChars hstructural
  exact h c ((mem_bindingClassName_iff hcaseless hne hsuffix).1 hc) hstructural

theorem IsFlat.identifier (h : IsFlat name) : IsFlat (identifier name) := by
  intro c hc hstructural
  rw [Java.identifier, String.toList_ofList, List.mem_map] at hc
  obtain ⟨x, hx, rfl⟩ := hc
  rw [identifierChar] at hstructural
  split at hstructural
  · exact absurd hstructural (by decide)
  · exact h x hx hstructural

theorem isFlat_toString (n : Nat) : IsFlat (toString n) := by
  intro c hc hstructural
  have hdigit : c.isDigit = true := by
    rw [Nat.toString_eq_repr, Nat.repr, String.toList_ofList] at hc
    exact Nat.isDigit_of_mem_toDigits (by decide) (by decide) hc
  have hall : (structuralChars.all fun c => decide (c.isDigit = false)) = true := by decide
  rw [of_decide_eq_true (List.all_eq_true.1 hall c hstructural)] at hdigit
  exact absurd hdigit (by decide)

theorem isFlat_intercalate {separator : String} {texts : List String} (hsep : IsFlat separator)
    (h : ∀ text ∈ texts, IsFlat text) : IsFlat (separator.intercalate texts) := by
  induction texts with
  | nil => exact fun c hc => absurd hc (by simp)
  | cons text texts ih =>
      obtain ⟨htext, htexts⟩ := List.forall_mem_cons.1 h
      cases texts with
      | nil => rwa [String.intercalate_singleton]
      | cons next texts =>
          rw [String.intercalate_cons_cons]
          exact isFlat_append.2 ⟨isFlat_append.2 ⟨htext, hsep⟩, ih htexts⟩

end Java

/-- The braces of an array are closed. -/
theorem isClosed_placeholderArray (count : Nat) : IsClosed (placeholderArray count) := by
  rw [placeholderArray]
  split
  · have hblank : IsFlat " " := by decide
    exact isClosed_braces hblank
  · have hzeros : IsFlat (", ".intercalate (List.replicate count placeholder)) := by
      refine isFlat_intercalate (by decide) fun text htext => ?_
      rw [List.eq_of_mem_replicate htext]
      decide
    have hbraces : ∀ text : String,
        "\x7b " ++ text ++ " \x7d" = "\x7b" ++ (" " ++ text ++ " ") ++ "\x7d" := fun text => by
      have hopen : "\x7b " = "\x7b" ++ " " := rfl
      have hclose : " \x7d" = " " ++ "\x7d" := rfl
      rw [hopen, hclose]
      simp only [String.append_assoc]
    rw [hbraces]
    exact isClosed_braces (isFlat_append.2 ⟨isFlat_append.2 ⟨by decide, hzeros⟩, by decide⟩)

/-! ## The class `R` -/

/-- Do the names of symbols and of members have neither braces nor line breaks? -/
structure SymbolTable.HasFlatNames (t : SymbolTable) : Prop where
  entries : ∀ e ∈ t.toList, IsFlat e.name
  members : ∀ group ∈ t.groups, ∀ member ∈ group.2, IsFlat member

/-- Is every value a placeholder, of a scalar or of an array? -/
def SymbolTable.HasPlaceholders (t : SymbolTable) : Prop :=
  ∀ e ∈ t.toList, e.value = placeholder ∨ ∃ count, e.value = placeholderArray count

theorem SymbolTable.mem_toList_of_mem_entries {t : SymbolTable} {kind : ResourceKind}
    {e : SymbolEntry} (h : e ∈ t.entries kind) : e ∈ t.toList := by
  rw [entries] at h
  cases hlookup : t.buckets.lookup kind with
  | none =>
      rw [hlookup] at h
      exact absurd h List.not_mem_nil
  | some bucket =>
      rw [hlookup] at h
      obtain ⟨before, after, hbuckets, -⟩ := List.lookup_eq_some_iff.1 hlookup
      refine List.mem_flatMap.2 ⟨(kind, bucket), ?_, h⟩
      rw [hbuckets]
      exact List.mem_append_right _ List.mem_cons_self

theorem SymbolTable.mem_groups_of_members? {t : SymbolTable} {group : String}
    {members : List String} (h : t.members? group = some members) :
    (group, members) ∈ t.groups := by
  obtain ⟨before, after, hgroups, -⟩ := List.lookup_eq_some_iff.1 h
  rw [hgroups]
  exact List.mem_append_right _ List.mem_cons_self

namespace RClass

variable {t : SymbolTable} {kind : ResourceKind}

theorem isStatement_declaration {f : Field} (htype : IsFlat f.type) (hname : IsFlat f.name)
    (hvalue : IsClosed f.value) : IsStatement f.declaration := by
  have hpublic : IsFlatLine "public static " := by decide
  have hsemicolon : IsFlat ";" := by decide
  have hfront : IsFlatLine ("public static " ++ f.type ++ " " ++ f.name ++ " = ") :=
    (((hpublic.append htype).append (by decide)).append hname).append (by decide)
  exact (hfront.isStatement.append hvalue).append hsemicolon.isClosed

/-- The line of a symbol. -/
theorem isStatement_ownField {e : SymbolEntry} (hname : IsFlat e.name)
    (hvalue : IsClosed e.value) : IsStatement (ownField e).declaration := by
  have harray : IsFlat "int[]" := by decide
  have hscalar : IsFlat "int" := by decide
  rw [ownField]
  split
  · exact isStatement_declaration harray hname.identifier hvalue
  · exact isStatement_declaration hscalar hname.identifier hvalue

/-- The line of a member. -/
theorem isStatement_memberField {group : String} {x : Nat × String} (hgroup : IsFlat group)
    (hmember : IsFlat x.2) : IsStatement (Block.memberField group x).declaration := by
  have htype : IsFlat "int" := by decide
  exact isStatement_declaration htype
    (isFlat_append.2 ⟨isFlat_append.2 ⟨hgroup, by decide⟩, hmember.identifier⟩)
    (isFlat_toString x.1).isClosed

/-- **Every line of a nested class is a statement.** -/
theorem isStatement_of_mem_fields (hnames : t.HasFlatNames) (hvalues : t.HasPlaceholders)
    {f : Field} (hf : f ∈ fields t kind) : IsStatement f.declaration := by
  rw [fields_eq_flatMap_blocks] at hf
  obtain ⟨b, hb, hf⟩ := List.mem_flatMap.1 hf
  obtain ⟨taken, e, he, rfl⟩ := blockOf_of_mem hb
  have hmem := SymbolTable.mem_toList_of_mem_entries he
  have hname := hnames.entries e hmem
  rcases List.mem_cons.1 hf with rfl | hf
  · refine isStatement_ownField hname ?_
    show IsClosed e.value
    rcases hvalues e hmem with h | ⟨count, h⟩
    · rw [h]
      exact IsFlat.isClosed (by decide)
    · rw [h]
      exact isClosed_placeholderArray count
  · obtain ⟨x, hx, rfl⟩ := List.mem_map.1 hf
    obtain ⟨-, members, hmembers, hplace⟩ := place_of_mem_members hx
    exact isStatement_memberField hname.identifier
      (hnames.members _ (SymbolTable.mem_groups_of_members? hmembers) _
        (List.mem_of_getElem? hplace))

theorem isFlat_name (kind : ResourceKind) : IsFlat kind.name := by
  have hall : ∀ kind ∈ ResourceKind.all, IsFlat kind.name := by decide
  exact hall kind kind.mem_all

theorem nestedAt_addClass (hnames : t.HasFlatNames) (hvalues : t.HasPlaceholders)
    {s : SourceText} {depth : Nat} (hs : s.NestedAt depth) (kind : ResourceKind) :
    (addClass t s kind).NestedAt depth := by
  have hclass : IsFlatLine "public static final class " := by decide
  refine ((hs.openBlock (hclass.append (isFlat_name kind))).lines ?_).closeBlock
  intro text htext
  obtain ⟨f, hf, rfl⟩ := List.mem_map.1 htext
  exact isStatement_of_mem_fields hnames hvalues hf

theorem nestedAt_addClasses (hnames : t.HasFlatNames) (hvalues : t.HasPlaceholders)
    {s : SourceText} {depth : Nat} (hs : s.NestedAt depth) (kinds : List ResourceKind) :
    (addClasses t s kinds).NestedAt depth := by
  cases kinds with
  | nil => exact hs
  | cons first rest =>
      rw [addClasses]
      exact List.foldlRecOn rest _ (nestedAt_addClass hnames hvalues hs first)
        fun s hs kind _ => nestedAt_addClass hnames hvalues hs.blank kind

/-- **The class `R` is well nested.** -/
theorem wellNested_render {package : String} (hpackage : IsFlat package)
    (hnames : t.HasFlatNames) (hvalues : t.HasPlaceholders) : (render package t).WellNested :=
  CompilationUnit.wellNested_of_nestedAt
    (nestedAt_addClasses hnames hvalues (nestedAt_start.openBlock (by decide))
      (kinds t)).closeBlock hpackage

end RClass

/-! ## The class `BR` -/

/-- Have the names and the types in a layout neither braces nor line breaks? -/
structure LayoutData.HasFlatNames (d : LayoutData) : Prop where
  layout : IsFlat d.layout
  rawName : ∀ b ∈ d.bindings ++ d.bindables, IsFlat b.rawName
  type : ∀ b ∈ d.bindings ++ d.bindables, IsFlat b.type.text

namespace BrClass

variable {layouts : List LayoutData}

theorem isStatement_of_mem_declarations {first : Nat} {l : List String}
    (hl : ∀ name ∈ l, IsFlat name) {text : String} (h : text ∈ declarations first l) :
    IsStatement text := by
  induction l generalizing first with
  | nil => exact absurd h List.not_mem_nil
  | cons name rest ih =>
      obtain ⟨hname, hrest⟩ := List.forall_mem_cons.1 hl
      rcases List.mem_cons.1 h with rfl | h
      · have hint : IsFlatLine "public static int " := by decide
        exact ((((hint.append hname).append (by decide)).append (isFlat_toString first)).append
          (by decide)).isStatement
      · exact ih hrest h

/-- **The class `BR` is well nested.** -/
theorem wellNested_render {package : String} (hpackage : IsFlat package)
    (hlayouts : ∀ d ∈ layouts, d.HasFlatNames) : (render package layouts).WellNested := by
  have hall : IsFlatLine "public static final int _all = 0;" := by decide
  refine CompilationUnit.wellNested_of_nestedAt (NestedAt.closeBlock (NestedAt.lines
    ((nestedAt_start.openBlock (by decide)).line hall.isStatement) fun text htext => ?_)) hpackage
  refine isStatement_of_mem_declarations (fun name hname => ?_) htext
  obtain ⟨d, hd, b, hb, rfl⟩ := mem_names_iff.1 hname
  exact ((hlayouts d hd).rawName b (List.mem_append_right _ hb)).camelCase

end BrClass

/-! ## Binding classes -/

namespace Stub

variable {d : LayoutData} {package : String}

/-- The interface of the binding classes is well nested. -/
theorem wellNested_component : component.WellNested :=
  CompilationUnit.wellNested_of_nestedAt
    (nestedAt_start.openBlock (by decide)).closeBlock (by decide)

/-- The lines of a field are statements. -/
theorem isStatement_of_mem_lines {f : Field} (hd : d.HasFlatNames) (hf : f ∈ fields d)
    {text : String} (htext : text ∈ f.lines) : IsStatement text := by
  refine IsFlatLine.isStatement ?_
  rw [fields, List.mem_mergeSort] at hf
  rcases List.mem_append.1 hf with hf | hf
  · obtain ⟨b, hb, rfl⟩ := List.mem_map.1 hf
    have hmem : b ∈ d.bindings ++ d.bindables :=
      List.mem_append_left _ (List.mem_of_mem_filter hb)
    have hfinal : IsFlatLine "public final " := by decide
    rcases List.mem_pair.1 htext with rfl | rfl
    · decide
    · exact (((hfinal.append (hd.type b hmem)).append (by decide)).append
        (hd.rawName b hmem).camelCase).append (by decide)
  · obtain ⟨b, hb, rfl⟩ := List.mem_map.1 hf
    have hmem : b ∈ d.bindings ++ d.bindables := List.mem_append_right _ hb
    have hprotected : IsFlatLine "protected " := by decide
    have hname : IsFlat (bindableFieldName b) :=
      isFlat_append.2 ⟨by decide, (hd.rawName b hmem).camelCase.capitalize⟩
    rcases List.mem_pair.1 htext with rfl | rfl
    · decide
    · exact (((hprotected.append (hd.type b hmem)).append (by decide)).append hname).append
        (by decide)

/-- What a method is made of when it can be written: its annotation and its body are
statements, and its signature can stand in front of a brace. -/
structure Method.IsWritable (m : Method) : Prop where
  annotation : ∀ text ∈ m.annotation.toList, IsStatement text
  signature : IsFlatLine m.signature
  body : ∀ texts, m.body = some texts → ∀ text ∈ texts, IsStatement text

theorem isStatement_of_mem_stubBody {text : String} (h : text ∈ stubBody) : IsStatement text := by
  refine IsFlatLine.isStatement ?_
  rw [List.mem_singleton.1 h]
  decide

theorem isWritable_constructor {className : String} {bindings : List Binding}
    (hclass : IsFlat className) (hnames : ∀ b ∈ bindings, IsFlat b.name)
    (htypes : ∀ b ∈ bindings, IsFlat b.type.text) :
    (constructor className bindings).IsWritable where
  annotation _ h := absurd h List.not_mem_nil
  signature := by
    have hprotected : IsFlatLine "protected " := by decide
    have hcomma : IsFlat ", " := by decide
    have hparameters : ∀ text ∈ fixedParameters ++ bindings.map parameter, IsFlat text := by
      refine List.forall_mem_append.2 ⟨by decide, fun text htext => ?_⟩
      obtain ⟨b, hb, rfl⟩ := List.mem_map.1 htext
      exact isFlat_append.2 ⟨isFlat_append.2 ⟨htypes b hb, by decide⟩, hnames b hb⟩
    exact (((hprotected.append hclass).append (by decide)).append
      (isFlat_intercalate hcomma hparameters)).append (by decide)
  body := by
    rintro texts ⟨⟩
    have hsuper : IsFlatLine "super(_bindingComponent, _root, _localFieldCount);" := by decide
    refine List.forall_mem_cons.2 ⟨hsuper.isStatement, fun text htext => ?_⟩
    obtain ⟨b, hb, rfl⟩ := List.mem_map.1 htext
    have hthis : IsFlatLine "this." := by decide
    exact ((((hthis.append (hnames b hb)).append (by decide)).append (hnames b hb)).append
      (by decide)).isStatement

theorem isWritable_setter {b : Binding} (hname : IsFlat b.name) (htype : IsFlat b.type.text) :
    (setter b).IsWritable where
  annotation _ h := absurd h List.not_mem_nil
  signature := by
    have habstract : IsFlatLine "public abstract void " := by decide
    have hset : IsFlat ("set" ++ capitalize b.name) :=
      isFlat_append.2 ⟨by decide, hname.capitalize⟩
    exact (((habstract.append hset).append (by decide)).append htype).append (by decide)
  body _ h := by cases h

theorem isWritable_getter {b : Binding} (hname : IsFlat b.name) (htype : IsFlat b.type.text) :
    (getter b).IsWritable where
  annotation text h := by
    refine IsFlatLine.isStatement ?_
    rw [List.mem_singleton.1 h]
    decide
  signature := by
    have hpublic : IsFlatLine "public " := by decide
    have hget : IsFlat ("get" ++ capitalize b.name) :=
      isFlat_append.2 ⟨by decide, hname.capitalize⟩
    exact (((hpublic.append htype).append (by decide)).append hget).append (by decide)
  body := by
    rintro texts ⟨⟩
    exact fun _ => isStatement_of_mem_stubBody

theorem isWritable_factory {qualified name : String} {parameters : List String}
    (hqualified : IsFlat qualified) (hname : IsFlat name)
    (hparameters : ∀ text ∈ parameters, IsFlat text) :
    (factory qualified name parameters).IsWritable where
  annotation text h := by
    refine IsFlatLine.isStatement ?_
    rw [List.mem_singleton.1 h]
    decide
  signature := by
    have hstatic : IsFlatLine "public static " := by decide
    have hcomma : IsFlat ", " := by decide
    exact (((((hstatic.append hqualified).append (by decide)).append hname).append
      (by decide)).append (isFlat_intercalate hcomma hparameters)).append (by decide)
  body := by
    rintro texts ⟨⟩
    exact fun _ => isStatement_of_mem_stubBody

theorem isFlat_packageOf (h : IsFlat package) : IsFlat (packageOf package) :=
  isFlat_append.2 ⟨h, by decide⟩

/-- **Every method of a binding class can be written.** -/
theorem isWritable_of_mem_methods (hpackage : IsFlat package) (hd : d.HasFlatNames) {m : Method}
    (hm : m ∈ methods package d) : m.IsWritable := by
  rw [methods, List.mem_mergeSort] at hm
  have hclass : IsFlat d.className := hd.layout.bindingClassName
  rcases List.mem_cons.1 hm with rfl | hm
  · have hmem : ∀ b ∈ fieldBindings d, b ∈ d.bindings ++ d.bindables :=
      fun b hb => List.mem_append_left _ (List.mem_of_mem_filter hb)
    exact isWritable_constructor hclass (fun b hb => (hd.rawName b (hmem b hb)).camelCase)
      fun b hb => hd.type b (hmem b hb)
  · rcases List.mem_append.1 hm with hm | hm
    · obtain ⟨b, hb, hm⟩ := List.mem_flatMap.1 hm
      have hmem : b ∈ d.bindings ++ d.bindables := List.mem_append_right _ hb
      have hname : IsFlat b.name := (hd.rawName b hmem).camelCase
      rcases List.mem_pair.1 hm with rfl | rfl
      · exact isWritable_setter hname (hd.type b hmem)
      · exact isWritable_getter hname (hd.type b hmem)
    · have hqualified : IsFlat (packageOf package ++ "." ++ d.className) :=
        isFlat_append.2 ⟨isFlat_append.2 ⟨isFlat_packageOf hpackage, by decide⟩, hclass⟩
      simp only [factories, List.mem_cons, List.not_mem_nil, or_false] at hm
      rcases hm with rfl | rfl | rfl | rfl | rfl <;>
        exact isWritable_factory hqualified (by decide) (by decide)

variable {s : SourceText} {depth : Nat} {m : Method} {l : List Method}

theorem nestedAt_addMethod (hs : s.NestedAt depth) (hm : m.IsWritable) :
    (addMethod s m).NestedAt depth := by
  have hannotated := hs.lines hm.annotation
  rw [addMethod]
  cases hbody : m.body with
  | none => exact hannotated.line (hm.signature.append (by decide)).isStatement
  | some texts =>
      exact ((hannotated.openBlock hm.signature).lines (hm.body texts hbody)).closeBlock

theorem nestedAt_addSpacedMethods (hs : s.NestedAt depth) (hl : ∀ m ∈ l, m.IsWritable) :
    (addSpacedMethods s l).NestedAt depth :=
  List.foldlRecOn l _ hs fun _ hs m hm => nestedAt_addMethod hs.blank (hl m hm)

theorem nestedAt_addMethods (hs : s.NestedAt depth) (afterFields : Bool)
    (hl : ∀ m ∈ l, m.IsWritable) : (addMethods s afterFields l).NestedAt depth := by
  cases l with
  | nil => exact hs
  | cons first rest =>
      obtain ⟨hfirst, hrest⟩ := List.forall_mem_cons.1 hl
      rw [addMethods]
      refine nestedAt_addSpacedMethods (nestedAt_addMethod ?_ hfirst) hrest
      cases afterFields with
      | false => exact hs
      | true => exact hs.blank

/-- **A binding class is well nested.** -/
theorem wellNested_render (hpackage : IsFlat package) (hd : d.HasFlatNames) :
    (render package d).WellNested := by
  have habstract : IsFlatLine "public abstract class " := by decide
  have hheader : IsFlatLine ("public abstract class " ++ d.className ++
      " extends androidx.databinding.ViewDataBinding") :=
    (habstract.append hd.layout.bindingClassName).append (by decide)
  refine CompilationUnit.wellNested_of_nestedAt (NestedAt.closeBlock (nestedAt_addMethods
    ((nestedAt_start.openBlock hheader).lines fun text htext => ?_) _
    fun m hm => isWritable_of_mem_methods hpackage hd hm)) (isFlat_packageOf hpackage)
  obtain ⟨f, hf, htext⟩ := List.mem_flatMap.1 htext
  exact isStatement_of_mem_lines hd hf htext

end Stub

/-! ## All sources -/

/-- **Every generated source is well nested.** -/
theorem wellNested_sources {package : String} {t : SymbolTable} {d : LayoutData}
    {layouts : List LayoutData} (hpackage : IsFlat package) (hnames : t.HasFlatNames)
    (hvalues : t.HasPlaceholders) (hd : d.HasFlatNames)
    (hlayouts : ∀ d ∈ layouts, d.HasFlatNames) :
    (RClass.render package t).WellNested ∧ (BrClass.render package layouts).WellNested ∧
      Stub.component.WellNested ∧ (Stub.render package d).WellNested :=
  ⟨RClass.wellNested_render hpackage hnames hvalues, BrClass.wellNested_render hpackage hlayouts,
    Stub.wellNested_component, Stub.wellNested_render hpackage hd⟩

/-- A table with a scalar and with a group of two attributes. -/
def titleAndBox : SymbolTable :=
  ⟨[(.string, [.scalar .string "title"]),
      (.styleable, [.array .styleable "Box" (placeholderArray 2)])],
    [("Box", ["android_text", "size"])]⟩

/-- A layout with a view and with a variable. -/
def viewAndVariable : LayoutData :=
  ⟨"main", none, [⟨"title_view", .named "android.view.View", .view⟩],
    [⟨"sizes", .generic "java.util.List" [.named "java.lang.String"], .variable⟩]⟩

/-- Their sources are well nested. -/
theorem wellNested_sources_viewAndVariable :
    (RClass.render "p" titleAndBox).WellNested ∧ (BrClass.render "p" [viewAndVariable]).WellNested ∧
      Stub.component.WellNested ∧ (Stub.render "p" viewAndVariable).WellNested := by
  have hlayout : viewAndVariable.HasFlatNames :=
    ⟨by decide +kernel, by decide +kernel, by decide +kernel⟩
  have hvalues : titleAndBox.HasPlaceholders := by
    intro e he
    rcases List.mem_pair.1 he with rfl | rfl
    · exact Or.inl rfl
    · exact Or.inr ⟨2, rfl⟩
  exact wellNested_sources (by decide) ⟨by decide +kernel, by decide +kernel⟩ hvalues hlayout
    (List.forall_mem_singleton.2 hlayout)

end ResourceStubs
