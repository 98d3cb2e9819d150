import ResourceStubs.Proofs.Symbol.IncrementalFilling
import ResourceStubs.Resource.Location

/-!
# What a file is, and what is collected from it

Discovery asks the directory of a file what the file is, and the collection of symbols asks
again, in its own way.  The two agree on every path: a file is read as one of values if it is
one (`file_of_values`), it stands in the table under the kind that it has (`file_of_kind`), and
it is refused as one of an unknown kind if it is no resource (`file_of_none`).

This holds where the documents that are looked into are whole, since whatever is wrong in a
document is reported before the kind is asked for.  A document is read exactly if it is whole
(`Declaration.isSome_readAll?_iff`, `ViewId.isSome_readAll?_iff`).
-/

namespace ResourceStubs

open Markup

/-! ## Whole documents -/

namespace Markup

/-- Is the document broken nowhere? -/
def IsWhole (document : String) : Prop :=
  .malformed ∉ read document

instance : DecidablePred IsWhole := fun document =>
  inferInstanceAs (Decidable (.malformed ∉ read document))

theorem whole_tagsOf_iff (events : List Event) :
    (tagsOf events).whole = true ↔ .malformed ∉ events := by
  induction events with
  | nil => simp [tagsOf]
  | cons e events ih => cases e <;> simp [tagsOf, ih]

end Markup

/-- The ids of a document are read if it is whole. -/
theorem ViewId.isSome_readAll?_iff (document : String) :
    (ViewId.readAll? document).isSome ↔ IsWhole document := by
  rw [ViewId.readAll?, ViewId.ofTags?, IsWhole, ← whole_tagsOf_iff]
  split <;> simp_all

namespace Declaration

/-- The children of a group are read if the document is whole. -/
theorem isSome_children? {depth : Nat} {events : List Event} (h : .malformed ∉ events) :
    (children? depth events).isSome := by
  induction events generalizing depth with
  | nil => rfl
  | cons e events ih =>
      rw [List.mem_cons, not_or] at h
      cases e with
      | opening tag | standalone tag =>
          rw [children?, Option.isSome_map]
          exact ih h.2
      | closing =>
          cases depth with
          | zero => rfl
          | succ depth => exact ih h.2
      | other => exact ih h.2
      | malformed => exact absurd rfl h.1

/-- Nothing is broken in what the children of a group were read from. -/
theorem exists_append_of_children? {depth : Nat} {events rest : List Event}
    {children : List StyleableChild} (h : children? depth events = some (children, rest)) :
    ∃ front, events = front ++ rest ∧ .malformed ∉ front := by
  induction events generalizing depth children with
  | nil =>
      obtain ⟨-, rfl⟩ := Prod.mk.inj (Option.some.inj h)
      exact ⟨[], rfl, List.not_mem_nil⟩
  | cons e events ih =>
      -- every event but the last is passed, and the end tag of the group ends the front
      have hpass : ∀ {depth : Nat} {more : List StyleableChild}, e ≠ .malformed →
          children? depth events = some (more, rest) →
          ∃ front, e :: events = front ++ rest ∧ .malformed ∉ front := by
        intro depth more he hmore
        obtain ⟨front, rfl, hfront⟩ := ih hmore
        exact ⟨e :: front, rfl, by simpa [Ne.symm he] using hfront⟩
      cases e with
      | opening tag | standalone tag =>
          obtain ⟨⟨more, after⟩, hmore, heq⟩ := Option.map_eq_some_iff.1 h
          obtain ⟨-, rfl⟩ := Prod.mk.inj heq
          exact hpass (by simp) hmore
      | closing =>
          cases depth with
          | zero =>
              obtain ⟨-, rfl⟩ := Prod.mk.inj (Option.some.inj h)
              exact ⟨[.closing], rfl, by simp⟩
          | succ depth => exact hpass (by simp) h
      | other => exact hpass (by simp) h
      | malformed => exact absurd h (by simp [children?])

theorem isSome_ofEvents?_iff (events : List Event) :
    (ofEvents? events).isSome ↔ .malformed ∉ events := by
  induction events using ofEvents?.induct with
  | case1 => simp [ofEvents?]
  | case2 tag rest hname ih => simp [ofEvents?_opening_of_unnamed hname, ih]
  | case3 tag rest name hname htag hnone =>
      have hbroken : Event.malformed ∈ rest := by
        by_contra h
        rw [← Option.not_isSome_iff_eq_none] at hnone
        exact hnone (isSome_children? h)
      have hevents : ofEvents? (.opening tag :: rest) = none := by
        rw [ofEvents?, hname]
        dsimp only
        rw [if_pos htag]
        split
        · rfl
        · rename_i hsome
          rw [hnone] at hsome
          exact absurd hsome (by simp)
      simp [hevents, hbroken]
  | case4 tag rest name hname htag children after hchildren ih =>
      obtain ⟨front, rfl, hfront⟩ := exists_append_of_children? hchildren
      simp [ofEvents?_group hname htag hchildren, ih, hfront]
  | case5 tag rest name hname htag ih => simp [ofEvents?_opening hname htag, ih]
  | case6 tag rest hname ih => simp [ofEvents?_standalone_of_unnamed hname, ih]
  | case7 tag rest name hname ih => simp [ofEvents?_standalone hname, ih]
  | case8 rest ih => simp [ofEvents?_closing, ih]
  | case9 rest ih => simp [ofEvents?, ih]
  | case10 rest => simp [ofEvents?]

/-- The declarations of a document are read if it is whole. -/
theorem isSome_readAll?_iff (document : String) :
    (readAll? document).isSome ↔ IsWhole document :=
  isSome_ofEvents?_iff _

end Declaration

/-! ## The two classifications -/

namespace ResourceLocation

open Collect ResourceKind

/-- The kind of a file that is a resource by itself.  One of values is none. -/
def kind? : ResourceLocation → Option ResourceKind
  | .values => none
  | .layout => some .layout
  | .resource kind => some kind

/-- The collection gives a file without a directory one with no name, and there are no
resources in such a one. -/
theorem ofPath?_eq (p : Path) : ofPath? p = ofDirectory? (directoryOf p) := by
  rw [ofPath?, directoryOf]
  cases p.directoryName? with
  | none => decide
  | some directory => rfl

theorem ofPath?_of_isValuesDirectory {p : Path} (h : isValuesDirectory (directoryOf p) = true) :
    ofPath? p = some .values := by
  rw [ofPath?_eq]
  exact if_pos h

/-- **Outside directories of values, both look up the same kind.** -/
theorem ofPath?_of_not_isValuesDirectory {p : Path}
    (h : ¬isValuesDirectory (directoryOf p) = true) :
    (ofPath? p).map kind? = (ofDirectoryName? (directoryOf p)).map some := by
  have hstarts : ¬Text.startsWith "values".toList (directoryOf p).toList = true := h
  rw [ofPath?_eq, ofDirectory?, if_neg hstarts]
  cases ofDirectoryName? (directoryOf p) with
  | none => rfl
  | some kind => cases kind <;> rfl

theorem ofPath?_eq_values_iff (p : Path) :
    ofPath? p = some .values ↔ isValuesDirectory (directoryOf p) = true := by
  refine ⟨fun hp => ?_, ofPath?_of_isValuesDirectory⟩
  by_contra h
  have hmap := ofPath?_of_not_isValuesDirectory h
  rw [hp] at hmap
  cases hkind : ofDirectoryName? (directoryOf p) with
  | none =>
      rw [hkind] at hmap
      exact absurd hmap (by simp)
  | some kind =>
      rw [hkind] at hmap
      exact absurd hmap (by simp [kind?])

end ResourceLocation

namespace Collect

open ResourceLocation SymbolTable

variable {tree : Tree} {p : Path}

/-- Is every document whole that the collection looks into for the file? -/
def ReadsWhole (tree : Tree) (p : Path) : Prop :=
  isRead p = true → ∃ contents, tree.readText? p = some contents ∧ IsWhole contents

theorem kindOfDirectory_of_none {directory : String}
    (h : ResourceKind.ofDirectoryName? directory = none) :
    kindOfDirectory directory = .error (.unknownKind (ResourceKind.directoryBase directory)) := by
  rw [kindOfDirectory, h]

theorem exists_idsOf (h : ReadsWhole tree p) : ∃ ids, idsOf tree p = .ok ids := by
  by_cases hx : p.extension? = some "xml"
  · have hread : isRead p = true := by rw [isRead, hx, Bool.or_eq_true]; exact Or.inr rfl
    obtain ⟨contents, hcontents, hwhole⟩ := h hread
    obtain ⟨ids, hids⟩ := Option.isSome_iff_exists.1 ((ViewId.isSome_readAll?_iff _).2 hwhole)
    exact ⟨ids, idsOf_eq_ok_iff.2 (Or.inl ⟨hx, contents, hcontents, hids⟩)⟩
  · exact ⟨[], idsOf_eq_ok_iff.2 (Or.inr ⟨hx, rfl⟩)⟩

/-- **A file of values is read as one**, and its declarations are taken as they are. -/
theorem file_of_values (h : ReadsWhole tree p) (hp : ofPath? p = some .values) :
    ∃ contents declarations t, tree.readText? p = some contents ∧
      Declaration.readAll? contents = some declarations ∧
      SymbolTable.empty.addDeclarations .standard declarations = .ok t ∧
      file .standard tree p = .ok t := by
  have hvalues := (ofPath?_eq_values_iff p).1 hp
  have hread : isRead p = true := by rw [isRead, hvalues]; rfl
  obtain ⟨contents, hcontents, hwhole⟩ := h hread
  obtain ⟨declarations, hall⟩ :=
    Option.isSome_iff_exists.1 ((Declaration.isSome_readAll?_iff _).2 hwhole)
  have hadd := addDeclarations_standard .empty declarations
  exact ⟨contents, declarations, _, hcontents, hall, hadd,
    file_of_declarations hvalues hcontents hall hadd⟩

/-- A table that is filled with placeholders has one for each of their keys. -/
theorem get?_of_mem_keys {keys : List (ResourceKind × String)} {kind : ResourceKind}
    {name : String} (h : (kind, name) ∈ keys) :
    ((keys.map fun k => SymbolEntry.scalar k.1 k.2).foldl SymbolTable.insert .empty).get? kind name =
      some (.scalar kind name) := by
  have hempty : SymbolTable.empty.get? kind name = none := rfl
  rw [get?_foldl_insert wellFormed_empty, hempty, Option.none_or]
  have hsome : (keys.map fun k => SymbolEntry.scalar k.1 k.2).find?
      (fun e => e.kind = kind ∧ e.name = name) ≠ none := by
    rw [Ne, List.find?_eq_none]
    intro hnone
    exact hnone _ (List.mem_map_of_mem h) (by simp [SymbolEntry.scalar])
  obtain ⟨e, he⟩ := Option.ne_none_iff_exists'.1 hsome
  obtain ⟨k, -, rfl⟩ := List.mem_map.1 (List.mem_of_find?_eq_some he)
  have hkey := List.find?_some he
  rw [decide_eq_true_iff] at hkey
  obtain ⟨hkind, hname⟩ : k.1 = kind ∧ k.2 = name := hkey
  rw [he, hkind, hname]

theorem insert_addIds_eq (ids : List String) (kind : ResourceKind) (name : String) :
    (SymbolTable.empty.addIds ids).insert (.scalar kind name) =
      (((ids.map (ResourceKind.id, ·)) ++ [(kind, name)]).map fun k =>
        SymbolEntry.scalar k.1 k.2).foldl SymbolTable.insert .empty := by
  simp only [List.map_append, List.foldl_append, List.foldl_map, List.map_cons, List.map_nil,
    List.foldl_cons, List.foldl_nil]
  rfl

/-- The directory of a resource that has a kind. -/
theorem directoryOf_of_kind {location : ResourceLocation} {kind : ResourceKind}
    (hp : ofPath? p = some location) (hkind : location.kind? = some kind) :
    ¬isValuesDirectory (directoryOf p) = true ∧
      ResourceKind.ofDirectoryName? (directoryOf p) = some kind := by
  have hvalues : ¬isValuesDirectory (directoryOf p) = true := by
    rw [← ofPath?_eq_values_iff, hp]
    rintro ⟨⟩
    exact absurd hkind (by simp [kind?])
  have hmap := ofPath?_of_not_isValuesDirectory hvalues
  rw [hp, Option.map_some, hkind] at hmap
  obtain ⟨found, hfound, hsome⟩ := Option.map_eq_some_iff.1 hmap.symm
  exact ⟨hvalues, by rw [hfound, Option.some.inj hsome]⟩

/-- **Any other resource has its ids and an entry for itself**, and nothing else. -/
theorem file_eq_ok_iff_of_kind {registry : Registry} {location : ResourceLocation}
    {kind : ResourceKind} {t : SymbolTable} (hp : ofPath? p = some location)
    (hkind : location.kind? = some kind) :
    file registry tree p = .ok t ↔ ∃ ids, idsOf tree p = .ok ids ∧
      t = (SymbolTable.empty.addIds ids).insert (.scalar kind (resourceName p)) := by
  obtain ⟨hvalues, hdirectory⟩ := directoryOf_of_kind hp hkind
  rw [file, if_neg hvalues, resourceFile_eq_ok_iff]
  refine exists_congr fun ids => ?_
  rw [hdirectory]
  simp

/-- **Any other resource is found under its own kind.** -/
theorem file_of_kind (h : ReadsWhole tree p) {location : ResourceLocation} {kind : ResourceKind}
    (hp : ofPath? p = some location) (hkind : location.kind? = some kind) :
    ∃ t, file .standard tree p = .ok t ∧
      t.get? kind (resourceName p) = some (.scalar kind (resourceName p)) := by
  obtain ⟨ids, hids⟩ := exists_idsOf h
  refine ⟨_, (file_eq_ok_iff_of_kind hp hkind).2 ⟨ids, hids, rfl⟩, ?_⟩
  rw [insert_addIds_eq]
  exact get?_of_mem_keys (List.mem_append_right _ (List.mem_singleton_self _))

/-- **A file that is no resource is one of an unknown kind.** -/
theorem file_of_none (h : ReadsWhole tree p) (hp : ofPath? p = none) :
    file .standard tree p =
      .error (.unknownKind (ResourceKind.directoryBase (directoryOf p))) := by
  have hvalues : ¬isValuesDirectory (directoryOf p) = true := by
    rw [← ofPath?_eq_values_iff, hp]
    exact fun h => absurd h (by simp)
  have hdirectory : ResourceKind.ofDirectoryName? (directoryOf p) = none := by
    have hmap := ofPath?_of_not_isValuesDirectory hvalues
    rw [hp, Option.map_none] at hmap
    exact Option.map_eq_none_iff.1 hmap.symm
  obtain ⟨ids, hids⟩ := exists_idsOf h
  rw [file, if_neg hvalues, resourceFile, bind_eq_error_iff]
  exact Or.inr ⟨ids, hids, by rw [kindOfDirectory_of_none hdirectory]; rfl⟩

/-- **What can be collected are the resources.** -/
theorem exists_file_iff (h : ReadsWhole tree p) :
    (∃ t, file .standard tree p = .ok t) ↔ (ofPath? p).isSome := by
  constructor
  · rintro ⟨t, ht⟩
    by_contra hnone
    rw [file_of_none h (Option.not_isSome_iff_eq_none.1 hnone)] at ht
    cases ht
  · intro hsome
    obtain ⟨location, hlocation⟩ := Option.isSome_iff_exists.1 hsome
    cases location with
    | values =>
        obtain ⟨-, -, t, -, -, -, ht⟩ := file_of_values h hlocation
        exact ⟨t, ht⟩
    | layout =>
        obtain ⟨t, ht, -⟩ := file_of_kind h hlocation rfl
        exact ⟨t, ht⟩
    | resource kind =>
        obtain ⟨t, ht, -⟩ := file_of_kind h hlocation rfl
        exact ⟨t, ht⟩

end Collect
end ResourceStubs
