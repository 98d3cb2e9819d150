import Mathlib.Data.List.Induction
import ResourceStubs.Proofs.Binding.ReadLayouts

/-!
# What a layout declares

A layout is read tag by tag, with a table of aliases that grows on the way, two lists that
pass over names that come again, and an end at the first tag that lacks something.  Here it is
said at once what comes out, for the tags of the document and what stands in front of each.

The aliases at a tag are those of the imports in front of it, the last one of each short name
(`find?_aliasesOf_iff`).  With them, a tag may be the one that ends the reading (`Offends`);
otherwise it declares a variable (`bindable?`), a view or an included layout (`binding?`), or
nothing.

* `readTag_stateOf`: a tag that does not offend leads from what is declared in front of it to
  what is declared up to it.
* `foldlM_readTag`: the tags lead to what they declare if none of them offends, and to the
  failure of the first that does.
* `readContents_eq_declared`: the same for the contents of a file, which may be broken behind
  the last tag.
-/

namespace ResourceStubs
namespace Layout

open Markup

variable {package : String} {types : LayoutTypes} {file : Path} {tags before : List Tag}
  {tag : Tag} {name : String} {type : JavaType} {failure : Failure}

/-! ## Aliases -/

/-- The short name that an import gives to the type of this expression: its alias, or the text
after the last dot. -/
def shortName (tag : Tag) (expression : String) : String :=
  (tag.attributes.get? "alias").getD (String.ofList (Text.afterLast ".".toList expression.toList))

/-- The short name and the type that a tag imports, where these aliases are known. -/
def imported? (aliases : Aliases) (tag : Tag) : Option (String × JavaType) :=
  if tag.name = "import" then do
    let expression ← tag.attributes.get? "type"
    let type ← (JavaType.resolve aliases expression).toOption
    return (shortName tag expression, type)
  else none

/-- The aliases behind these tags, the latest first.  The type of an import may use the
aliases in front of it. -/
def aliasesOf (tags : List Tag) : Aliases :=
  tags.foldl (fun aliases tag => (imported? aliases tag).toList ++ aliases) []

/-- Does the last import of a short name among these tags give it this type? -/
def IsLastImport (tags : List Tag) (name : String) (type : JavaType) : Prop :=
  ∃ before tag after, tags = before ++ tag :: after ∧
    imported? (aliasesOf before) tag = some (name, type) ∧
    ∀ between other rest, after = between ++ other :: rest →
      ∀ t, imported? (aliasesOf (before ++ tag :: between)) other ≠ some (name, t)

theorem aliasesOf_concat (tags : List Tag) (tag : Tag) :
    aliasesOf (tags ++ [tag]) = (imported? (aliasesOf tags) tag).toList ++ aliasesOf tags :=
  List.foldl_concat _ _ _ _

/-- The last tag is the last import of a name, or does not import it. -/
theorem isLastImport_concat :
    IsLastImport (tags ++ [tag]) name type ↔
      imported? (aliasesOf tags) tag = some (name, type) ∨
        (∀ t, imported? (aliasesOf tags) tag ≠ some (name, t)) ∧ IsLastImport tags name type := by
  constructor
  · rintro ⟨before, x, after, hplace, himport, hlast⟩
    rcases concat_eq_append_cons_iff.1 hplace with ⟨rfl, rfl, rfl⟩ | ⟨rest, rfl, rfl⟩
    · exact Or.inl himport
    · refine Or.inr ⟨hlast rest tag [] rfl, before, x, rest, rfl, himport, ?_⟩
      intro between other others hrest
      exact hlast between other (others ++ [tag]) (by rw [hrest, List.append_assoc]; rfl)
  · rintro (himport | ⟨hnot, before, x, after, rfl, himport, hlast⟩)
    · exact ⟨tags, tag, [], rfl, himport, fun between other rest h => absurd h (by simp)⟩
    · refine ⟨before, x, after ++ [tag], by rw [List.append_assoc]; rfl, himport, ?_⟩
      intro between other others hplace
      rcases concat_eq_append_cons_iff.1 hplace with ⟨rfl, rfl, rfl⟩ | ⟨rest, rfl, hafter⟩
      · exact hnot
      · exact hlast between other rest hafter

/-- **The aliases are those of the last imports.** -/
theorem find?_aliasesOf_iff :
    (aliasesOf tags).find? name = some type ↔ IsLastImport tags name type := by
  induction tags using List.reverseRecOn with
  | nil =>
      constructor
      · intro h
        cases h
      · rintro ⟨before, x, after, h, -⟩
        exact absurd h (by simp)
  | append_singleton tags tag ih =>
      rw [isLastImport_concat, aliasesOf_concat, ← ih]
      cases himport : imported? (aliasesOf tags) tag with
      | none =>
          show (aliasesOf tags).find? name = some type ↔ _
          simp
      | some given =>
          obtain ⟨given, t⟩ := given
          show ((aliasesOf tags).insert given t).find? name = some type ↔ _
          rw [Aliases.find?_insert]
          by_cases hname : name = given
          · subst hname
            simp
          · have hne : given ≠ name := fun h => hname h.symm
            simp [hname, hne]

/-! ## What a tag declares, and when it ends the reading -/

/-- The variable that a tag declares behind these tags. -/
def bindable? (before : List Tag) (tag : Tag) : Option Binding :=
  if tag.name = "variable" then do
    let rawName ← tag.attributes.get? "name"
    let expression ← tag.attributes.get? "type"
    let type ← (JavaType.resolve (aliasesOf before) expression).toOption
    return ⟨rawName, type, .variable⟩
  else none

/-- The variables that tags declare, behind `before` and in their order. -/
def bindablesFrom (before : List Tag) : List Tag → List Binding
  | [] => []
  | tag :: rest => (bindable? before tag).toList ++ bindablesFrom (before ++ [tag]) rest

/-- The name that a tag gives to what it stands for: if there is a plus sign in its id, the
text after the last `@+id/`. -/
def declaredName? (tag : Tag) : Option String := do
  let reference ← tag.attributes.get? "android:id"
  if '+' ∈ reference.toList then
    return String.ofList (Text.afterLast "@+id/".toList reference.toList)
  else none

/-- The view or the included layout that a tag with a new id is. -/
def binding? (package : String) (types : LayoutTypes) (tag : Tag) : Option Binding :=
  if IsElement tag then do
    let rawName ← declaredName? tag
    if tag.name = "include" then
      let reference ← tag.attributes.get? "layout"
      let layout := String.ofList (Text.afterLast "@layout/".toList reference.toList)
      let (type, missing) := includedType package types layout
      return ⟨rawName, type, .included layout missing⟩
    else return ⟨rawName, viewType tag.name, .view⟩
  else none

/-- Why a tag behind these tags ends the reading: it lacks an attribute that it has to have, or
its type does not resolve. -/
inductive Offends (file : Path) (before : List Tag) (tag : Tag) : Failure → Prop
  | importWithoutType (hname : tag.name = "import") (htype : tag.attributes.get? "type" = none) :
      Offends file before tag (.missingAttribute file "import" "type")
  | importUnresolved (hname : tag.name = "import") (expression : String)
      (htype : tag.attributes.get? "type" = some expression) (e : TypeError)
      (hresolve : JavaType.resolve (aliasesOf before) expression = .error e) :
      Offends file before tag (.malformedType file "import" e)
  | variableWithoutName (hname : tag.name = "variable")
      (hrawName : tag.attributes.get? "name" = none) :
      Offends file before tag (.missingAttribute file "variable" "name")
  | variableWithoutType (hname : tag.name = "variable") (rawName : String)
      (hrawName : tag.attributes.get? "name" = some rawName)
      (htype : tag.attributes.get? "type" = none) :
      Offends file before tag (.missingAttribute file "variable" "type")
  | variableUnresolved (hname : tag.name = "variable") (rawName expression : String)
      (hrawName : tag.attributes.get? "name" = some rawName)
      (htype : tag.attributes.get? "type" = some expression) (e : TypeError)
      (hresolve : JavaType.resolve (aliasesOf before) expression = .error e) :
      Offends file before tag (.malformedType file "variable" e)
  | includeWithoutLayout (hname : tag.name = "include") (reference : String)
      (hid : tag.attributes.get? "android:id" = some reference) (hnew : '+' ∈ reference.toList)
      (hlayout : tag.attributes.get? "layout" = none) :
      Offends file before tag (.missingAttribute file "include" "layout")

/-- What has been read behind these tags, if none of them offends. -/
def stateOf (package : String) (types : LayoutTypes) (tags : List Tag) : LayoutState :=
  ⟨aliasesOf tags, firstOfEach Binding.rawName (tags.filterMap (binding? package types)),
    firstOfEach Binding.rawName (bindablesFrom [] tags)⟩

theorem bindablesFrom_concat (before tags : List Tag) (tag : Tag) :
    bindablesFrom before (tags ++ [tag]) =
      bindablesFrom before tags ++ (bindable? (before ++ tags) tag).toList := by
  induction tags generalizing before with
  | nil =>
      rw [List.append_nil]
      exact List.append_nil _
  | cons first tags ih =>
      rw [List.cons_append, bindablesFrom, bindablesFrom, ih, List.append_assoc, List.append_assoc]
      rfl

theorem filterMap_concat {α β : Type} (f : α → Option β) (l : List α) (a : α) :
    (l ++ [a]).filterMap f = l.filterMap f ++ (f a).toList := by
  rw [List.filterMap_append]
  cases h : f a <;> simp [h]

/-- One more tag adds its alias, its binding and its variable. -/
theorem stateOf_concat (package : String) (types : LayoutTypes) (tags : List Tag) (tag : Tag) :
    stateOf package types (tags ++ [tag]) =
      ⟨(imported? (aliasesOf tags) tag).toList ++ aliasesOf tags,
        firsts Binding.rawName (stateOf package types tags).bindings
          (binding? package types tag).toList,
        firsts Binding.rawName (stateOf package types tags).bindables
          (bindable? tags tag).toList⟩ := by
  rw [stateOf, aliasesOf_concat, filterMap_concat, bindablesFrom_concat, firstOfEach_append,
    firstOfEach_append]
  rfl

/-! ## One tag -/

theorem newId?_eq (tag : Tag) : newId? tag = declaredName? tag := by
  rw [newId?, declaredName?, ViewId.key]
  cases tag.attributes.get? "android:id" <;> rfl

/-- **A tag that offends ends the reading**, with the failure that it is. -/
theorem Offends.readTag_eq (h : Offends file before tag failure) :
    readTag package types file (stateOf package types before) tag = .error failure := by
  unfold readTag
  cases h with
  | importWithoutType hname htype => simp [hname, required, htype, bind, Except.bind]
  | importUnresolved hname expression htype e hresolve =>
      simp [hname, required, htype, resolveIn, stateOf, hresolve, bind, Except.bind]
  | variableWithoutName hname hrawName => simp [hname, required, hrawName, bind, Except.bind]
  | variableWithoutType hname rawName hrawName htype =>
      simp [hname, required, hrawName, htype, bind, Except.bind]
  | variableUnresolved hname rawName expression hrawName htype e hresolve =>
      simp [hname, required, hrawName, htype, resolveIn, stateOf, hresolve, bind, Except.bind]
  | includeWithoutLayout hname reference hid hnew hlayout =>
      simp [hname, newId?_eq, declaredName?, hid, hnew, bindingOf, required, hlayout, bind,
        Except.bind]

theorem exists_reference_of_declaredName? {rawName : String}
    (h : declaredName? tag = some rawName) :
    ∃ reference, tag.attributes.get? "android:id" = some reference ∧ '+' ∈ reference.toList := by
  obtain ⟨reference, hreference, h⟩ := Option.bind_eq_some_iff.1 h
  split at h
  · rename_i hnew
    exact ⟨reference, hreference, hnew⟩
  · cases h

theorem required_eq_ok {key value : String} (h : tag.attributes.get? key = some value) :
    required file tag key = .ok value := by
  rw [required, h]

theorem resolveIn_eq_ok {aliases : Aliases} {expression : String}
    (h : JavaType.resolve aliases expression = .ok type) :
    resolveIn file tag aliases expression = .ok type := by
  rw [resolveIn, h]

theorem readTag_import (hname : tag.name = "import")
    (h : ∀ failure, ¬Offends file before tag failure) :
    readTag package types file (stateOf package types before) tag =
      .ok (stateOf package types (before ++ [tag])) := by
  have hbindable : bindable? before tag = none := by rw [bindable?, hname]; rfl
  have hbinding : binding? package types tag = none := if_neg fun helement => helement.1 hname
  cases htype : tag.attributes.get? "type" with
  | none => exact absurd (.importWithoutType hname htype) (h _)
  | some expression =>
      cases hresolve : JavaType.resolve (aliasesOf before) expression with
      | error e => exact absurd (.importUnresolved hname expression htype e hresolve) (h _)
      | ok type =>
          have himported : imported? (aliasesOf before) tag =
              some (shortName tag expression, type) := by
            rw [imported?, if_pos hname, htype]
            simp only [Option.bind_eq_bind, Option.bind_some, hresolve]
            rfl
          rw [stateOf_concat, himported, hbindable, hbinding]
          exact readTag_eq_ok_iff.2 (.imported hname expression type (required_eq_ok htype)
            (resolveIn_eq_ok hresolve))

theorem readTag_variable (hname : tag.name = "variable")
    (h : ∀ failure, ¬Offends file before tag failure) :
    readTag package types file (stateOf package types before) tag =
      .ok (stateOf package types (before ++ [tag])) := by
  have himported : imported? (aliasesOf before) tag = none := by rw [imported?, hname]; rfl
  have hbinding : binding? package types tag = none := if_neg fun helement => helement.2 hname
  cases hrawName : tag.attributes.get? "name" with
  | none => exact absurd (.variableWithoutName hname hrawName) (h _)
  | some rawName =>
      cases htype : tag.attributes.get? "type" with
      | none => exact absurd (.variableWithoutType hname rawName hrawName htype) (h _)
      | some expression =>
          cases hresolve : JavaType.resolve (aliasesOf before) expression with
          | error e =>
              exact absurd (.variableUnresolved hname rawName expression hrawName htype e hresolve)
                (h _)
          | ok type =>
              have hbindable : bindable? before tag = some ⟨rawName, type, .variable⟩ := by
                rw [bindable?, if_pos hname, hrawName, htype]
                simp only [Option.bind_eq_bind, Option.bind_some, hresolve]
                rfl
              rw [stateOf_concat, himported, hbindable, hbinding]
              exact readTag_eq_ok_iff.2 (.declared hname rawName expression type
                (required_eq_ok hrawName) (required_eq_ok htype) (resolveIn_eq_ok hresolve))

theorem readTag_element (hname : IsElement tag)
    (h : ∀ failure, ¬Offends file before tag failure) :
    readTag package types file (stateOf package types before) tag =
      .ok (stateOf package types (before ++ [tag])) := by
  have himported : imported? (aliasesOf before) tag = none := by rw [imported?, if_neg hname.1]
  have hbindable : bindable? before tag = none := by rw [bindable?, if_neg hname.2]
  rw [stateOf_concat, himported, hbindable, binding?, if_pos hname]
  cases hid : declaredName? tag with
  | none => exact readTag_eq_ok_iff.2 (.unnamed hname ((newId?_eq tag).trans hid))
  | some rawName =>
      by_cases hinclude : tag.name = "include"
      · cases hlayout : tag.attributes.get? "layout" with
        | none =>
            obtain ⟨reference, hreference, hnew⟩ := exists_reference_of_declaredName? hid
            exact absurd (.includeWithoutLayout hinclude reference hreference hnew hlayout) (h _)
        | some reference =>
            simp only [Option.bind_eq_bind, Option.bind_some, if_pos hinclude]
            refine readTag_eq_ok_iff.2 (.bound hname rawName ((newId?_eq tag).trans hid) _ ?_)
            rw [bindingOf, if_pos hinclude, required_eq_ok hlayout]
            rfl
      · simp only [Option.bind_eq_bind, Option.bind_some, if_neg hinclude]
        refine readTag_eq_ok_iff.2 (.bound hname rawName ((newId?_eq tag).trans hid) _ ?_)
        rw [bindingOf, if_neg hinclude]
        rfl

/-- **A tag that does not offend leads from what is declared in front of it to what is declared
up to it.** -/
theorem readTag_stateOf (h : ∀ failure, ¬Offends file before tag failure) :
    readTag package types file (stateOf package types before) tag =
      .ok (stateOf package types (before ++ [tag])) := by
  by_cases himport : tag.name = "import"
  · exact readTag_import himport h
  · by_cases hvariable : tag.name = "variable"
    · exact readTag_variable hvariable h
    · exact readTag_element ⟨himport, hvariable⟩ h

/-! ## All tags -/

/-- Does none of the tags offend? -/
def NoneOffends (file : Path) (tags : List Tag) : Prop :=
  ∀ before tag after, tags = before ++ tag :: after → ∀ failure, ¬Offends file before tag failure

/-- Is this the failure of the first tag that offends? -/
def FirstOffends (file : Path) (tags : List Tag) (failure : Failure) : Prop :=
  ∃ before tag after, tags = before ++ tag :: after ∧ NoneOffends file before ∧
    Offends file before tag failure

theorem noneOffends_concat :
    NoneOffends file (tags ++ [tag]) ↔
      NoneOffends file tags ∧ ∀ failure, ¬Offends file tags tag failure := by
  constructor
  · intro h
    refine ⟨fun before x after hplace => h before x (after ++ [tag]) ?_, h tags tag [] rfl⟩
    exact concat_eq_append_cons_iff.2 (Or.inr ⟨after, rfl, hplace⟩)
  · rintro ⟨htags, htag⟩ before x after hplace
    rcases concat_eq_append_cons_iff.1 hplace with ⟨-, rfl, rfl⟩ | ⟨rest, -, hrest⟩
    · exact htag
    · exact htags before x rest hrest

theorem firstOffends_concat :
    FirstOffends file (tags ++ [tag]) failure ↔
      FirstOffends file tags failure ∨ NoneOffends file tags ∧ Offends file tags tag failure := by
  constructor
  · rintro ⟨before, x, after, hplace, hbefore, hx⟩
    rcases concat_eq_append_cons_iff.1 hplace with ⟨-, rfl, rfl⟩ | ⟨rest, -, hrest⟩
    · exact Or.inr ⟨hbefore, hx⟩
    · exact Or.inl ⟨before, x, rest, hrest, hbefore, hx⟩
  · rintro (⟨before, x, after, hplace, hbefore, hx⟩ | ⟨htags, htag⟩)
    · exact ⟨before, x, after ++ [tag],
        concat_eq_append_cons_iff.2 (Or.inr ⟨after, rfl, hplace⟩), hbefore, hx⟩
    · exact ⟨tags, tag, [], rfl, htags, htag⟩

/-- Either none of the tags offends, or one of them is the first. -/
theorem noneOffends_or_firstOffends (file : Path) (tags : List Tag) :
    NoneOffends file tags ∨ ∃ failure, FirstOffends file tags failure := by
  induction tags using List.reverseRecOn with
  | nil => exact Or.inl fun before tag after h => absurd h (by simp)
  | append_singleton tags tag ih =>
      rcases ih with hnone | ⟨failure, hfirst⟩
      · by_cases htag : ∃ failure, Offends file tags tag failure
        · obtain ⟨failure, htag⟩ := htag
          exact Or.inr ⟨failure, firstOffends_concat.2 (Or.inr ⟨hnone, htag⟩)⟩
        · exact Or.inl (noneOffends_concat.2 ⟨hnone, not_exists.1 htag⟩)
      · exact Or.inr ⟨failure, firstOffends_concat.2 (Or.inl hfirst)⟩

/-- **The tags lead to what they declare, or to the failure of the first that offends**, by
induction from the last tag. -/
theorem foldlM_readTag (tags : List Tag) :
    (NoneOffends file tags →
      tags.foldlM (readTag package types file) .start = .ok (stateOf package types tags)) ∧
    (∀ failure, FirstOffends file tags failure →
      tags.foldlM (readTag package types file) .start = .error failure) := by
  induction tags using List.reverseRecOn with
  | nil =>
      refine ⟨fun _ => rfl, ?_⟩
      rintro failure ⟨before, tag, after, h, -⟩
      exact absurd h (by simp)
  | append_singleton tags tag ih =>
      rw [List.foldlM_append]
      constructor
      · intro h
        obtain ⟨htags, htag⟩ := noneOffends_concat.1 h
        rw [ih.1 htags]
        show (readTag package types file (stateOf package types tags) tag >>= pure) = _
        rw [readTag_stateOf htag]
        rfl
      · intro failure h
        rcases firstOffends_concat.1 h with hfirst | ⟨htags, htag⟩
        · rw [ih.2 failure hfirst]
          rfl
        · rw [ih.1 htags]
          show (readTag package types file (stateOf package types tags) tag >>= pure) = _
          rw [htag.readTag_eq]
          rfl

/-! ## The contents of a file -/

/-- The layout that tags declare: of each name the first variable, and the first view or
included layout. -/
def declaredLayout (package : String) (types : LayoutTypes) (file : Path) (tags : List Tag) :
    LayoutData :=
  ⟨LayoutData.layoutOfFile file, some file,
    firstOfEach Binding.rawName (tags.filterMap (binding? package types)),
    firstOfEach Binding.rawName (bindablesFrom [] tags)⟩

theorem FirstOffends.not_noneOffends (h : FirstOffends file tags failure) :
    ¬NoneOffends file tags := by
  obtain ⟨before, tag, after, hplace, -, htag⟩ := h
  exact fun hnone => hnone before tag after hplace failure htag

variable {contents : String} {whole : Bool}

theorem readContents_of_noneOffends (h : tagsOf (Markup.read contents) = ⟨tags, whole⟩)
    (hnone : NoneOffends file tags) :
    readContents package types file contents =
      if whole then .ok (declaredLayout package types file tags)
      else .error (.malformedMarkup file) := by
  rw [readContents, h, readTags, (foldlM_readTag tags).1 hnone]
  rfl

theorem readContents_of_firstOffends (h : tagsOf (Markup.read contents) = ⟨tags, whole⟩)
    (hfirst : FirstOffends file tags failure) :
    readContents package types file contents = .error failure := by
  rw [readContents, h, readTags, (foldlM_readTag tags).2 failure hfirst]
  rfl

/-- **Reading a layout comes to what its tags declare.**  It fails if a tag offends or the
document is broken, with the failure of the first such place; else the layout has the first
variable and the first binding of each name, with the types that the imports in front of them
give. -/
theorem readContents_eq_declared (h : tagsOf (Markup.read contents) = ⟨tags, whole⟩) :
    (∀ d, readContents package types file contents = .ok d ↔
      NoneOffends file tags ∧ whole = true ∧ d = declaredLayout package types file tags) ∧
    (∀ failure, readContents package types file contents = .error failure ↔
      FirstOffends file tags failure ∨
        NoneOffends file tags ∧ whole = false ∧ failure = .malformedMarkup file) ∧
    ∀ before name type,
      (aliasesOf before).find? name = some type ↔ IsLastImport before name type := by
  refine ⟨fun d => ?_, fun failure => ?_, fun before name type => find?_aliasesOf_iff⟩
  · rcases noneOffends_or_firstOffends file tags with hnone | ⟨failure, hfirst⟩
    · rw [readContents_of_noneOffends h hnone]
      cases whole with
      | true => simp [hnone, eq_comm]
      | false => simp
    · rw [readContents_of_firstOffends h hfirst]
      simp [hfirst.not_noneOffends]
  · rcases noneOffends_or_firstOffends file tags with hnone | ⟨failure₀, hfirst⟩
    · have hnot : ¬FirstOffends file tags failure := fun hfirst => hfirst.not_noneOffends hnone
      rw [readContents_of_noneOffends h hnone]
      cases whole with
      | true => simp [hnot]
      | false => simp [hnot, hnone, eq_comm]
    · have hread : ∀ {failure}, FirstOffends file tags failure →
          readContents package types file contents = .error failure :=
        readContents_of_firstOffends h
      constructor
      · intro herror
        rw [hread hfirst] at herror
        cases herror
        exact Or.inl hfirst
      · rintro (hfirst' | ⟨hnone, -⟩)
        · exact hread hfirst'
        · exact absurd hnone hfirst.not_noneOffends

/-- A layout that imports two classes of one name, with variables behind either, a view and an
included layout. -/
def twoUsers : String :=
  "<layout><import type='a.User'/><variable name='u' type='User'/><import type='b.User'/>" ++
    "<variable name='v' type='User'/><variable name='u' type='User'/>" ++
    "<View android:id='@+id/top'/><include android:id='@+id/bar' layout='@layout/tools'/></layout>"

/-- The tags of this layout. -/
def twoUsersTags : List Tag :=
  let import_ (type : String) : Tag := ⟨"import", ⟨[("type", type)]⟩⟩
  let variable_ (name : String) : Tag := ⟨"variable", ⟨[("name", name), ("type", "User")]⟩⟩
  [⟨"layout", ⟨[]⟩⟩, import_ "a.User", variable_ "u", import_ "b.User", variable_ "v",
    variable_ "u", ⟨"View", ⟨[("android:id", "@+id/top")]⟩⟩,
    ⟨"include", ⟨[("android:id", "@+id/bar"), ("layout", "@layout/tools")]⟩⟩]

/-- The layout that is read. -/
def twoUsersLayout : LayoutData :=
  ⟨"a", some ⟨"layout/a.xml"⟩,
    [⟨"top", .named "android.view.View", .view⟩,
      ⟨"bar", .named "p.databinding.ToolsBinding", .included "tools" true⟩],
    [⟨"u", .named "a.User", .variable⟩, ⟨"v", .named "b.User", .variable⟩]⟩

/-- A variable has the type of the last import in front of it, and a name is declared once. -/
theorem readContents_twoUsers :
    tagsOf (Markup.read twoUsers) = ⟨twoUsersTags, true⟩ ∧
    NoneOffends ⟨"layout/a.xml"⟩ twoUsersTags ∧
    declaredLayout "p" ⟨.empty, .empty⟩ ⟨"layout/a.xml"⟩ twoUsersTags = twoUsersLayout := by
  have htags : tagsOf (Markup.read twoUsers) = ⟨twoUsersTags, true⟩ := by decide +kernel
  have hread : readContents "p" ⟨.empty, .empty⟩ ⟨"layout/a.xml"⟩ twoUsers =
      .ok twoUsersLayout := by
    rw [readContents, htags]
    decide +kernel
  obtain ⟨hnone, -, hd⟩ := ((readContents_eq_declared htags).1 _).1 hread
  exact ⟨htags, hnone, hd.symm⟩

end Layout
end ResourceStubs
