import ResourceStubs.Command
import ResourceStubs.Proofs.File.Components
import ResourceStubs.Proofs.Text.Joined
import ResourceStubs.Resource.Location

/-!
# Layouts by their path, and by their directory

The layouts among resource files are picked out by the text of their paths, and every other
part of a run asks the directory that a file is in.  This file compares the two.

The text has `/layout` in it if and only if some step of the path behind its first begins
with `layout` (`isBelowLayout_iff`), whatever the step is for: a directory further up or the
file itself will do, and the first step of a relative path will not.  The directory is that
of a layout if what its name has before the first dash is `layout` in any letter case
(`ofPath?_eq_layout_iff`).  So the two pick out the same files exactly where both conditions
agree on each file (`partitionLayouts_eq_iff`).
-/

namespace ResourceStubs

namespace Path

open Text

/-- Does the path have the text of a layout?  Some step behind the first begins with `layout`,
or one has `\layout` in it. -/
def HasLayoutStep (p : Path) : Prop :=
  (∃ c ∈ p.components.tail, "layout".toList <+: c.nameText.toList) ∨
    ∃ c ∈ p.components, "\\layout".toList <:+: c.nameText.toList

instance : DecidablePred HasLayoutStep := fun p =>
  inferInstanceAs (Decidable ((∃ c ∈ p.components.tail, _) ∨ ∃ c ∈ p.components, _))

/-- A property that no idle segment has, nor `..`, is one of a segment if and only if it is one
of the name of a component. -/
theorem exists_nameText_iff {P : String → Prop} (hempty : ¬P "") (hhere : ¬P ".") (hup : ¬P "..")
    (segments : List String) :
    (∃ c ∈ (segments.filter counts).map Component.ofSegment, P c.nameText) ↔
      ∃ s ∈ segments, P s := by
  constructor
  · rintro ⟨c, hc, hP⟩
    obtain ⟨s, hs, rfl⟩ := List.mem_map.1 hc
    refine ⟨s, (List.mem_filter.1 hs).1, ?_⟩
    rw [Component.ofSegment] at hP
    split at hP
    · exact absurd hP hempty
    · exact hP
  · rintro ⟨s, hs, hP⟩
    have hcounts : counts s = true :=
      counts_iff.2 ⟨fun h => hempty (h ▸ hP), fun h => hhere (h ▸ hP)⟩
    have hname : s ≠ ".." := fun h => hup (h ▸ hP)
    refine ⟨_, List.mem_map_of_mem (List.mem_filter.2 ⟨hs, hcounts⟩), ?_⟩
    rwa [Component.ofSegment, if_neg hname]

/-- The components behind the first are those of the segments behind the first, whether the
path starts with a component of its own or with its first segment. -/
theorem tail_components (p : Path) :
    p.components.tail = (p.segments.tail.filter counts).map Component.ofSegment := by
  rw [components_eq]
  rcases lead_cases p with ⟨habs, hlead⟩ | ⟨-, hhead, hlead⟩ | ⟨habs, hhead, hlead⟩
  · obtain ⟨rest, hrest⟩ := segments_of_isAbsolute habs
    rw [hlead, hrest, List.filter_cons_of_neg (by decide)]
    rfl
  · obtain ⟨rest, hrest⟩ := List.head?_eq_some_iff.1 hhead
    rw [hlead, hrest, List.filter_cons_of_neg (by decide)]
    rfl
  · rw [hlead, List.nil_append]
    by_cases htext : p.text = ""
    · rw [segments, htext]
      rfl
    · obtain ⟨s, rest, hrest, hne⟩ := segments_of_not_isAbsolute habs htext
      have hcounts : counts s = true := by
        rw [hrest, List.head?_cons, Ne, Option.some.injEq] at hhead
        exact counts_iff.2 ⟨hne, hhead⟩
      rw [hrest, List.filter_cons_of_pos hcounts]
      rfl

/-- What a path starts with before its first segment has no name. -/
theorem exists_components_iff {P : String → Prop} (hempty : ¬P "") (p : Path) :
    (∃ c ∈ p.components, P c.nameText) ↔
      ∃ c ∈ (p.segments.filter counts).map Component.ofSegment, P c.nameText := by
  rw [components_eq]
  rcases lead_cases p with ⟨-, hlead⟩ | ⟨-, -, hlead⟩ | ⟨-, -, hlead⟩
  · rw [hlead, List.singleton_append, List.exists_mem_cons_iff]
    exact or_iff_right hempty
  · rw [hlead, List.singleton_append, List.exists_mem_cons_iff]
    exact or_iff_right hempty
  · rw [hlead, List.nil_append]

/-- **A path is taken for that of a layout by the steps that it has.** -/
theorem isBelowLayout_iff (p : Path) : p.isBelowLayout = true ↔ p.HasLayoutStep := by
  have hnoSlash : '/' ∉ "\\layout".toList := by decide
  have hslash : "/layout".toList = '/' :: "layout".toList := rfl
  have hfirst : '/' :: "layout".toList <:+: p.text.toList ↔
      ∃ c ∈ p.components.tail, "layout".toList <+: c.nameText.toList := by
    rw [tail_components, exists_nameText_iff (P := fun s => "layout".toList <+: s.toList)
      (by decide) (by decide) (by decide), cons_infix_iff_exists_mem_pieces (by decide), segments,
      ← List.map_tail]
    simp only [List.mem_map, exists_exists_and_eq_and, String.toList_ofList]
  have hany : "\\layout".toList <:+: p.text.toList ↔
      ∃ c ∈ p.components, "\\layout".toList <:+: c.nameText.toList := by
    rw [exists_components_iff (P := fun s => "\\layout".toList <:+: s.toList) (by decide),
      exists_nameText_iff (P := fun s => "\\layout".toList <:+: s.toList) (by decide) (by decide)
      (by decide), infix_iff_exists_mem_pieces hnoSlash, segments]
    simp only [List.mem_map, exists_exists_and_eq_and, String.toList_ofList]
  rw [isBelowLayout, Bool.or_eq_true, occursIn_iff, occursIn_iff, hslash, hfirst, hany,
    HasLayoutStep]

end Path

namespace ResourceKind

/-- No directory is one of values and one of layouts. -/
theorem startsWith_values_of_layout {directory : String}
    (h : Text.sameIgnoringCase layout.name (directoryBase directory) = true) :
    Text.startsWith "values".toList directory.toList = false := by
  rw [← Bool.not_eq_true, Text.startsWith, Text.isSome_afterStart?_iff]
  rintro ⟨rest, hrest⟩
  have hbase : (directoryBase directory).toList =
      'v' :: Text.beforeFirst ['-'] ("alues".toList ++ rest) := by
    rw [directoryBase, String.toList_ofList, ← hrest]
    exact Text.beforeFirst_cons_of_ne (by decide) _
  rw [Text.sameIgnoringCase, hbase, beq_iff_eq] at h
  exact absurd (List.cons.inj h).1 (by decide)

end ResourceKind

namespace ResourceLocation

open ResourceStubs.Path ResourceKind

/-- **A file is a layout by the directory that it is in.** -/
theorem ofPath?_eq_layout_iff (p : Path) :
    ofPath? p = some .layout ↔ ∃ directory, p.directoryName? = some directory ∧
      Text.sameIgnoringCase ResourceKind.layout.name (directoryBase directory) = true := by
  rw [ofPath?, Option.bind_eq_some_iff]
  refine exists_congr fun directory => and_congr_right fun _ => ?_
  rw [← ofName?_eq_some_iff, ← ofDirectoryName?, ofDirectory?]
  constructor
  · intro h
    split at h
    · exact absurd h (by simp)
    · split at h
      · assumption
      · exact absurd h (by simp)
      · exact absurd h (by simp)
  · intro h
    have hvalues := startsWith_values_of_layout (ofName?_eq_some_iff.1 h)
    rw [hvalues, if_neg (by simp), h]

end ResourceLocation

/-! ## The two ways compared -/

section Partition

open ResourceStubs.Path ResourceLocation ResourceKind

variable {p : Path} {directory : String}

/-- The path has a file in the directory at its end, and something in front of both.  Nothing
but the directory looks like one of layouts. -/
structure Path.LiesPlainlyIn (p : Path) (directory : String) : Prop where
  exists_front : ∃ front file, front ≠ [] ∧
    p.components = front ++ [.name directory, .name file] ∧
      ∀ c ∈ Component.name file :: front.tail, ¬"layout".toList <+: c.nameText.toList
  no_backslash : ∀ c ∈ p.components, ¬"\\layout".toList <:+: c.nameText.toList

theorem Path.LiesPlainlyIn.directoryName? (h : p.LiesPlainlyIn directory) :
    p.directoryName? = some directory := by
  obtain ⟨front, file, -, hcomponents, -⟩ := h.exists_front
  have hlast : p.components = front ++ [.name directory] ++ [.name file] := by
    rw [hcomponents, List.append_assoc]
    rfl
  rw [directoryName?_eq, hlast, List.getLast?_concat, List.dropLast_concat, List.getLast?_concat,
    if_neg (by simp)]
  rfl

/-- Of a file that lies plainly in a directory, only the directory counts. -/
theorem Path.LiesPlainlyIn.hasLayoutStep_iff (h : p.LiesPlainlyIn directory) :
    p.HasLayoutStep ↔ "layout".toList <+: directory.toList := by
  obtain ⟨front, file, hfront, hcomponents, hothers⟩ := h.exists_front
  obtain ⟨first, front, rfl⟩ := List.exists_cons_of_ne_nil hfront
  rw [List.forall_mem_cons, List.tail_cons] at hothers
  have hnone : ¬∃ c ∈ p.components, "\\layout".toList <:+: c.nameText.toList :=
    fun ⟨c, hc, hfound⟩ => h.no_backslash c hc hfound
  rw [HasLayoutStep, or_iff_left hnone, hcomponents, List.cons_append, List.tail_cons]
  constructor
  · rintro ⟨c, hc, hbegins⟩
    rcases List.mem_append.1 hc with hc | hc
    · exact absurd hbegins (hothers.2 c hc)
    · rcases List.mem_pair.1 hc with rfl | rfl
      · exact hbegins
      · exact absurd hbegins hothers.1
  · exact fun hbegins => ⟨.name directory, by simp, hbegins⟩

theorem Path.LiesPlainlyIn.ofPath?_eq_layout_iff (h : p.LiesPlainlyIn directory) :
    ofPath? p = some .layout ↔
      Text.sameIgnoringCase layout.name (directoryBase directory) = true := by
  rw [ResourceLocation.ofPath?_eq_layout_iff, h.directoryName?]
  simp

/-- The files that are layouts by their directories. -/
def classifiedLayouts (files : List Path) : List Path :=
  files.filter fun p => ofPath? p = some .layout

/-- **The layouts that a path is taken for, and those of a directory of layouts.**

The first are the files with a step of a layout, in order.  They are the files in directories
of layouts exactly if each file has such a step just when it lies in such a directory.  Where
every file lies plainly in a directory, this depends on the names of the directories only: those
that begin with `layout` have to be those that have `layout`, in any letter case, before the
first dash. -/
theorem partitionLayouts_eq_iff (files : List Path) :
    partitionLayouts files = files.filter (fun p => p.HasLayoutStep) ∧
      (partitionLayouts files = classifiedLayouts files ↔
        ∀ p ∈ files, p.HasLayoutStep ↔ ofPath? p = some .layout) ∧
      ((∀ p ∈ files, ∃ directory, p.LiesPlainlyIn directory) →
        (partitionLayouts files = classifiedLayouts files ↔
          ∀ p ∈ files, ∀ directory, p.LiesPlainlyIn directory →
            ("layout".toList <+: directory.toList ↔
              Text.sameIgnoringCase layout.name (directoryBase directory) = true))) := by
  have hsteps : partitionLayouts files = files.filter (fun p => p.HasLayoutStep) :=
    List.filter_congr fun p _ => Bool.eq_iff_iff.2 ((isBelowLayout_iff p).trans (by simp))
  have hsame : partitionLayouts files = classifiedLayouts files ↔
      ∀ p ∈ files, p.HasLayoutStep ↔ ofPath? p = some .layout := by
    rw [hsteps, classifiedLayouts]
    constructor
    · intro h p hp
      have hmem : p ∈ files.filter (fun p => p.HasLayoutStep) ↔
          p ∈ files.filter fun p => ofPath? p = some .layout := by rw [h]
      simpa [hp] using hmem
    · exact fun h => List.filter_congr fun p hp => decide_eq_decide.2 (h p hp)
  refine ⟨hsteps, hsame, fun hplain => hsame.trans ?_⟩
  constructor
  · intro h p hp directory hlies
    rw [← hlies.hasLayoutStep_iff, ← hlies.ofPath?_eq_layout_iff]
    exact h p hp
  · intro h p hp
    obtain ⟨directory, hlies⟩ := hplain p hp
    rw [hlies.hasLayoutStep_iff, hlies.ofPath?_eq_layout_iff]
    exact h p hp directory hlies

/-- A layout, a drawable and a file of values below one root. -/
theorem partitionLayouts_eq_iff_plain :
    let files : List Path :=
      [⟨"res/layout-land/main.xml"⟩, ⟨"res/drawable/icon.png"⟩, ⟨"/res/values/a.xml"⟩]
    (∀ p ∈ files, ∃ directory, p.LiesPlainlyIn directory) ∧
      partitionLayouts files = classifiedLayouts files := by
  intro files
  have hplain : ∀ p ∈ files, ∃ directory, p.LiesPlainlyIn directory := by
    rintro p hp
    simp only [files, List.mem_cons, List.not_mem_nil, or_false] at hp
    rcases hp with rfl | rfl | rfl
    · exact ⟨"layout-land", ⟨[.name "res"], "main.xml", by decide⟩, by decide⟩
    · exact ⟨"drawable", ⟨[.name "res"], "icon.png", by decide⟩, by decide⟩
    · exact ⟨"values", ⟨[.root, .name "res"], "a.xml", by decide⟩, by decide⟩
  refine ⟨hplain, ((partitionLayouts_eq_iff files).2.2 hplain).2 ?_⟩
  intro p hp directory hlies
  have hname := hlies.directoryName?
  simp only [files, List.mem_cons, List.not_mem_nil, or_false] at hp
  rcases hp with rfl | rfl | rfl
  · obtain rfl : "layout-land" = directory := Option.some.inj hname
    decide
  · obtain rfl : "drawable" = directory := Option.some.inj hname
    decide
  · obtain rfl : "values" = directory := Option.some.inj hname
    decide

/-- A drawable whose own name begins with `layout` is taken for a layout, and a layout in the
first directory of a relative path is not. -/
theorem partitionLayouts_ne_classifiedLayouts :
    let files : List Path :=
      [⟨"res/drawable/layout_bg.png"⟩, ⟨"layout/main.xml"⟩, ⟨"res/layout/main.xml"⟩]
    partitionLayouts files = [⟨"res/drawable/layout_bg.png"⟩, ⟨"res/layout/main.xml"⟩] ∧
      classifiedLayouts files = [⟨"layout/main.xml"⟩, ⟨"res/layout/main.xml"⟩] := by
  decide

end Partition
end ResourceStubs
