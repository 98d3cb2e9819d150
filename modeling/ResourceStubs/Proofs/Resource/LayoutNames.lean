import ResourceStubs.Proofs.Binding.ReadLayouts
import ResourceStubs.Proofs.Symbol.ClassifiedFiles
import ResourceStubs.Proofs.Text.Cut

/-!
# The two names of a layout

A layout is named twice: by its symbol, and by its bindings.  Both names are cut out of the name
of its file.  For the symbol, the extension is taken off, and then everything from the first `.9`
on, which is how the name of a nine-patch image ends.  For the bindings, everything from the first
`.xml` on is taken off.

The second cut is no other than a cut of the stem of the file at its first `.xml`
(`layoutOfFile_eq`), so each of the two takes a mark of its own off the same stem.  The marks do
not begin alike.  So the two names are the same if and only if the stem has neither of the marks
in it, and then both are the stem (`layoutSymbol_named_by_layout`).
-/

namespace ResourceStubs

namespace Path

variable {p : Path} {ext : String}

/-- A file name with an extension is the stem, a dot and the extension. -/
theorem fileName?_of_extension? (h : p.extension? = some ext) :
    ∃ stem, p.fileStem? = some stem ∧ p.fileName? = some (stem ++ "." ++ ext) := by
  rw [extension?, Option.bind_eq_some_iff] at h
  obtain ⟨name, hname, hext⟩ := h
  refine ⟨(splitName name).1, by rw [fileStem?, hname, Option.map_some], ?_⟩
  rw [hname, splitName] at *
  split at hext
  · rename_i c cs after hcut
    obtain ⟨hchars, -⟩ := Text.cutLast?_eq_some_iff.1 hcut
    rw [← Option.some.inj hext, Option.some.injEq, ← String.toList_inj, hchars]
    simp
  · exact absurd hext (by simp)

end Path

/-- Ids are added to the kind of ids alone. -/
theorem SymbolTable.entries_addIds_of_ne {t : SymbolTable} (ht : t.WellFormed)
    {kind : ResourceKind} (hkind : kind ≠ .id) (ids : List String) :
    (t.addIds ids).entries kind = t.entries kind := by
  induction ids generalizing t with
  | nil => rfl
  | cons id ids ih =>
      have hadd : t.addIds (id :: ids) = (t.insert (.scalar .id id)).addIds ids := rfl
      rw [hadd, ih (ht.insert _), entries_insert ht]
      exact if_neg hkind

section Layout

open ResourceLocation Collect LayoutData Text

variable {registry : Registry} {tree : Tree} {p : Path} {stem : String}

/-- A layout has one symbol of its kind. -/
theorem entries_file_of_layout {t : SymbolTable} (hp : ofPath? p = some .layout)
    (h : Collect.file registry tree p = .ok t) :
    t.entries .layout = [.scalar .layout (resourceName p)] := by
  obtain ⟨ids, -, rfl⟩ := (file_eq_ok_iff_of_kind hp rfl).1 h
  have hempty := SymbolTable.wellFormed_empty
  rw [SymbolTable.entries_insert (hempty.addIds ids),
    SymbolTable.entries_addIds_of_ne hempty (by decide)]
  rfl

theorem resourceName_eq (hstem : p.fileStem? = some stem) :
    resourceName p = String.ofList (beforeFirst ".9".toList stem.toList) := by
  rw [resourceName, hstem]
  rfl

/-- **Bindings are named by what the stem has before its first `.xml`.** -/
theorem layoutOfFile_eq (hname : p.fileName? = some (stem ++ ".xml")) :
    layoutOfFile p = String.ofList (beforeFirst ".xml".toList stem.toList) := by
  have hfresh : 'l' ∉ ['.', 'x', 'm'] := by decide
  have hcut : beforeFirst ".xml".toList (stem ++ ".xml").toList =
      beforeFirst ".xml".toList stem.toList := by
    rw [String.toList_append]
    exact beforeFirst_append_self hfresh
  rw [layoutOfFile, hname, Option.getD_some, hcut]

/-- **The class `R` names a layout as its bindings are named, but for the marks that each of them
takes off.**  Let `p` be a file with the extension `xml` in a directory of layouts.  Its bindings,
if they are read, are named by what the stem of its name has before its first `.xml`.  Its symbol
is named by what the stem has before its first `.9`, so the two names are the same if and only if
the stem has neither in it, and then they are the stem.  The symbol is the only one of its kind
that the file adds, and it is there whenever the document is whole. -/
theorem layoutSymbol_named_by_layout (hp : ofPath? p = some .layout)
    (hxml : p.extension? = some "xml") (registry : Registry) (tree : Tree) :
    ∃ stem, p.fileStem? = some stem ∧
      layoutOfFile p = String.ofList (beforeFirst ".xml".toList stem.toList) ∧
      (∀ package types d, Layout.readFile package types tree p = .ok d →
        d.layout = layoutOfFile p) ∧
      (∀ t, Collect.file registry tree p = .ok t → ∃ name,
        t.entries .layout = [.scalar .layout name] ∧
        name = String.ofList (beforeFirst ".9".toList stem.toList) ∧
        (name = layoutOfFile p ↔
          ¬".9".toList <:+: stem.toList ∧ ¬".xml".toList <:+: stem.toList) ∧
        (name = layoutOfFile p → name = stem)) ∧
      (ReadsWhole tree p → ∃ t, Collect.file registry tree p = .ok t) := by
  obtain ⟨stem, hstem, hname⟩ := Path.fileName?_of_extension? hxml
  rw [String.append_assoc] at hname
  have hlayout := layoutOfFile_eq hname
  have hsame : resourceName p = layoutOfFile p ↔
      ¬".9".toList <:+: stem.toList ∧ ¬".xml".toList <:+: stem.toList := by
    rw [resourceName_eq hstem, hlayout, String.ofList_inj]
    exact beforeFirst_eq_beforeFirst_iff (by decide) (by decide) (by decide) (by decide)
  refine ⟨stem, hstem, hlayout, fun _ _ _ h => (Layout.layout_of_readFile h).1,
    fun t ht => ⟨_, entries_file_of_layout hp ht, resourceName_eq hstem, hsame, fun h => ?_⟩,
    fun hwhole => ?_⟩
  · rw [resourceName_eq hstem, beforeFirst_of_not_occurs (hsame.1 h).1, String.ofList_toList]
  · obtain ⟨ids, hids⟩ := exists_idsOf hwhole
    exact ⟨_, (file_eq_ok_iff_of_kind hp rfl).2 ⟨ids, hids, rfl⟩⟩

/-- A tree with two layouts: one with dots in its name, and one named as nine-patch images are. -/
def dottedLayouts : Tree :=
  ⟨[(["res"], .directory), (["res", "layout"], .directory),
    (["res", "layout", "row.v2.xml"], .file (.text "<layout/>")),
    (["res", "layout", "grid.9.xml"], .file (.text "<layout/>"))], []⟩

theorem readsWhole_dottedLayouts :
    ReadsWhole dottedLayouts ⟨"res/layout/row.v2.xml"⟩ ∧
      ReadsWhole dottedLayouts ⟨"res/layout/grid.9.xml"⟩ := by
  have hrow : dottedLayouts.LiesIn ⟨"res/layout/row.v2.xml"⟩ ["res", "layout"] "row.v2.xml" := by
    decide
  have hgrid : dottedLayouts.LiesIn ⟨"res/layout/grid.9.xml"⟩ ["res", "layout"] "grid.9.xml" := by
    decide
  have hwhole : Markup.IsWhole "<layout/>" := by decide +kernel
  exact ⟨fun _ => ⟨_, Tree.readText?_eq_some_iff.2 ⟨_, hrow.fileAt?_of_file rfl, rfl⟩, hwhole⟩,
    fun _ => ⟨_, Tree.readText?_eq_some_iff.2 ⟨_, hgrid.fileAt?_of_file rfl, rfl⟩, hwhole⟩⟩

/-- A layout with a dot in its name that is no mark. -/
theorem layoutSymbol_named_by_layout_dotted :
    let p : Path := ⟨"res/layout/row.v2.xml"⟩
    ofPath? p = some .layout ∧ p.extension? = some "xml" ∧ layoutOfFile p = "row.v2" ∧
      ∃ t, Collect.file .standard dottedLayouts p = .ok t ∧
        t.entries .layout = [.scalar .layout "row.v2"] := by
  intro p
  have hp : ofPath? p = some .layout := by decide
  have hxml : p.extension? = some "xml" := by decide
  have hlayout : layoutOfFile p = "row.v2" := by decide
  obtain ⟨stem, hstem, -, -, hname, hfile⟩ :=
    layoutSymbol_named_by_layout hp hxml .standard dottedLayouts
  have hrow : p.fileStem? = some "row.v2" := by decide
  obtain rfl : "row.v2" = stem := Option.some.inj (hrow.symm.trans hstem)
  obtain ⟨t, ht⟩ := hfile readsWhole_dottedLayouts.1
  obtain ⟨name, hentries, -, hsame, -⟩ := hname t ht
  refine ⟨hp, hxml, hlayout, t, ht, ?_⟩
  rw [hentries, hsame.2 (by decide), hlayout]

/-- A layout named as nine-patch images are has a symbol that is named otherwise. -/
theorem layoutSymbol_without_mark :
    let p : Path := ⟨"res/layout/grid.9.xml"⟩
    ofPath? p = some .layout ∧ p.extension? = some "xml" ∧ layoutOfFile p = "grid.9" ∧
      ∃ t, Collect.file .standard dottedLayouts p = .ok t ∧
        t.entries .layout = [.scalar .layout "grid"] := by
  intro p
  have hp : ofPath? p = some .layout := by decide
  obtain ⟨ids, hids⟩ := exists_idsOf readsWhole_dottedLayouts.2
  obtain ⟨t, ht⟩ : ∃ t, Collect.file .standard dottedLayouts p = .ok t :=
    ⟨_, (file_eq_ok_iff_of_kind hp rfl).2 ⟨ids, hids, rfl⟩⟩
  exact ⟨hp, by decide, by decide, t, ht, (entries_file_of_layout hp ht).trans (by decide)⟩

end Layout
end ResourceStubs
