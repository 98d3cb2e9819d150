import ResourceStubs.Proofs.Binding.OwnStore
import ResourceStubs.Proofs.File.Locate
import ResourceStubs.Proofs.List.Ascending

/-!
# Which type an included layout has

Both stores keep the first type that they are given.  For the module's own layouts that says
nothing, since all files of a layout give it the same type; only the marker counts.  For the
layouts of dependencies it makes the order of the documents count.  A document is a map, so
within it there is no order to look at: `ascending_of_read?`.

* `get?_ofClassInfos`: a layout of a dependency has the class that the first document with
  the layout gives it.
* `get?_of_files_and_documents`: how the two stores work together.  A file without the
  marker hides nothing, and the order of the files is not seen.
-/

namespace ResourceStubs

open Std

/-! ## A document is a map -/

namespace ClassInfo

theorem putAscending_eq (layout qualified : String) (l : List (String × String)) :
    putAscending layout qualified l = alterAscending layout (fun _ => qualified) l := by
  induction l with
  | nil => rfl
  | cons x l ih =>
      obtain ⟨k, v⟩ := x
      rw [putAscending, alterAscending, ih]
      cases h : compare layout k with
      | lt => rfl
      | eq => rw [LawfulEqCmp.eq_of_compare h]
      | gt => rfl

theorem ascending_foldlM {members : List (Option String × Json.Value)}
    {known read : List (String × String)} (hknown : Ascending known)
    (h : members.foldlM addMapping? known = some read) : Ascending read := by
  induction members generalizing known with
  | nil =>
      rw [List.foldlM_nil] at h
      exact Option.some.inj h ▸ hknown
  | cons member members ih =>
      rw [List.foldlM_cons, Option.bind_eq_bind, Option.bind_eq_some_iff] at h
      obtain ⟨more, hmore, h⟩ := h
      rw [addMapping?, Option.bind_eq_bind, Option.bind_eq_some_iff] at hmore
      obtain ⟨layout, -, hmore⟩ := hmore
      obtain ⟨qualified, -, hmore⟩ := Option.bind_eq_some_iff.1 hmore
      refine ih ?_ h
      rw [← Option.some.inj hmore, putAscending_eq]
      exact hknown.alter _ _

/-- **A document has one class for each layout.** -/
theorem ascending_of_read? {document : String} {mappings : List (String × String)}
    (h : read? document = some mappings) : Ascending mappings := by
  have hmappings : ∀ {v : Json.Value}, mappings? v = some mappings → Ascending mappings := by
    intro v hv
    rw [mappings?.eq_def] at hv
    split at hv
    · exact ascending_foldlM ascending_nil hv
    · exact absurd hv (by simp)
  obtain ⟨v, -, hv⟩ := Option.bind_eq_some_iff.1 h
  rw [ofValue?.eq_def] at hv
  repeat' split at hv
  · exact Option.some.inj hv ▸ ascending_nil
  · exact hmappings hv
  · exact absurd hv (by simp)
  · exact Option.some.inj hv ▸ ascending_nil
  · exact hmappings hv
  · exact absurd hv (by simp)

end ClassInfo

namespace TypeStore

variable {tree : Tree} {infos : List Path} {s : TypeStore}

/-! ## The store of the dependencies -/

/-- The layouts and their classes in the document of a file. -/
def published? (tree : Tree) (file : Path) : Option (List (String × String)) :=
  (tree.readText? file).bind ClassInfo.read?

/-- The class that the document of a file gives a layout. -/
def publishedClass? (tree : Tree) (layout : String) (file : Path) : Option String :=
  (published? tree file).bind fun mappings => mappings.lookup layout

/-- Adds the layouts of a dependency with their classes. -/
def addMappings (s : TypeStore) (mappings : List (String × String)) : TypeStore :=
  mappings.foldl (fun s (layout, qualified) => s.insert layout (.named qualified)) s

theorem addClassInfo_eq_ok_iff {s' : TypeStore} {file : Path} :
    addClassInfo tree s file = .ok s' ↔ ∃ text mappings, tree.readText? file = some text ∧
      ClassInfo.read? text = some mappings ∧ s' = s.addMappings mappings := by
  rw [addClassInfo, bind_eq_ok_iff]
  constructor
  · rintro ⟨text, hread, h⟩
    split at h
    · exact absurd h throw_ne_ok
    · rename_i mappings hmappings
      exact ⟨text, mappings, Tree.read_eq_ok_iff.1 hread, hmappings, (Except.ok.inj h).symm⟩
  · rintro ⟨text, mappings, hread, hmappings, rfl⟩
    refine ⟨text, Tree.read_eq_ok_iff.2 hread, ?_⟩
    rw [hmappings]
    rfl

/-- A layout has the type that it had, or else the class that has come. -/
theorem get?_addMappings (s : TypeStore) (mappings : List (String × String)) (layout : String) :
    (s.addMappings mappings).get? layout =
      (s.get? layout).or ((mappings.lookup layout).map JavaType.named) := by
  induction mappings generalizing s with
  | nil => exact Option.or_none.symm
  | cons x mappings ih =>
      show ((s.insert x.1 (.named x.2)).addMappings mappings).get? layout = _
      rw [ih, get?_insert, Option.or_assoc]
      refine congrArg _ ?_
      by_cases h : layout = x.1
      · rw [if_pos h, Option.some_or, h, List.lookup_cons_self, Option.map_some]
      · rw [if_neg h, Option.none_or, lookup_cons_of_ne h]

theorem get?_foldl_addMappings (s : TypeStore) (layout : String) :
    (infos.foldl (fun s info => s.addMappings ((published? tree info).getD [])) s).get? layout =
      (s.get? layout).or ((infos.findSome? (publishedClass? tree layout)).map JavaType.named) := by
  induction infos generalizing s with
  | nil => exact Option.or_none.symm
  | cons info infos ih =>
      have hclass : ((published? tree info).getD []).lookup layout =
          publishedClass? tree layout info := by
        rw [publishedClass?]
        cases published? tree info <;> rfl
      rw [List.foldl_cons, ih, get?_addMappings, Option.or_assoc, hclass, List.findSome?_cons]
      cases publishedClass? tree layout info <;> rfl

theorem ofClassInfos_eq_ok_iff :
    ofClassInfos tree infos = .ok s ↔
      (∀ info ∈ infos, ∃ mappings, published? tree info = some mappings) ∧
        s = infos.foldl (fun s info => s.addMappings ((published? tree info).getD [])) empty := by
  refine foldlM_eq_ok_iff (f := addClassInfo tree) fun s info s' => ?_
  rw [addClassInfo_eq_ok_iff]
  constructor
  · rintro ⟨text, mappings, hread, hmappings, rfl⟩
    have hpublished : published? tree info = some mappings :=
      Option.bind_eq_some_iff.2 ⟨text, hread, hmappings⟩
    exact ⟨⟨mappings, hpublished⟩, by rw [hpublished, Option.getD_some]⟩
  · rintro ⟨⟨mappings, hpublished⟩, rfl⟩
    obtain ⟨text, hread, hmappings⟩ := Option.bind_eq_some_iff.1 hpublished
    exact ⟨text, mappings, hread, hmappings, by rw [hpublished, Option.getD_some]⟩

/-- **A layout of a dependency has the class of the first document that has the layout.** -/
theorem get?_ofClassInfos (h : ofClassInfos tree infos = .ok s) (layout : String) :
    s.get? layout = (infos.findSome? (publishedClass? tree layout)).map JavaType.named := by
  have hempty : empty.get? layout = none := rfl
  rw [(ofClassInfos_eq_ok_iff.1 h).2, get?_foldl_addMappings, hempty, Option.none_or]

end TypeStore

/-! ## Both stores -/

namespace LayoutTypes

open TypeStore

variable {tree : Tree} {files infos : List Path}

/-- **Which type an included layout has.**  Let the layout files and the documents of the
dependencies be readable; each document has one class for each layout.  Then both stores are
made.  A layout has its own class in the module if any of its files has the marker; if none
has, it has the class of the first document that has the layout, and no type if there is
none.  All lists of the same files come to this. -/
theorem get?_of_files_and_documents (package : String)
    (hfiles : ∀ file ∈ files, ∃ text, tree.readText? file = some text)
    (hinfos : ∀ info ∈ infos, ∃ mappings, published? tree info = some mappings) :
    (∀ info ∈ infos, ∀ mappings, published? tree info = some mappings → Ascending mappings) ∧
    ∃ own dependencies, ofFiles package tree files = .ok own ∧
      ofClassInfos tree infos = .ok dependencies ∧
      (∀ layout,
        ((∃ file ∈ files, LayoutData.layoutOfFile file = layout ∧
            ∃ text, tree.readText? file = some text ∧ marker.toList <:+: text.toList) →
          LayoutTypes.get? ⟨own, dependencies⟩ layout =
            some (.named (package ++ ".databinding." ++ Java.bindingClassName layout))) ∧
        ((¬∃ file ∈ files, LayoutData.layoutOfFile file = layout ∧
            ∃ text, tree.readText? file = some text ∧ marker.toList <:+: text.toList) →
          LayoutTypes.get? ⟨own, dependencies⟩ layout =
            (infos.findSome? fun info => (published? tree info).bind fun mappings =>
              mappings.lookup layout).map JavaType.named)) ∧
      ∀ files', (∀ file, file ∈ files' ↔ file ∈ files) →
        ∃ own', ofFiles package tree files' = .ok own' ∧
          ∀ layout, LayoutTypes.get? ⟨own', dependencies⟩ layout =
            LayoutTypes.get? ⟨own, dependencies⟩ layout := by
  have hown : ofFiles package tree files = .ok _ := ofFiles_eq_ok_iff.2 ⟨hfiles, rfl⟩
  have hdependencies := ofClassInfos_eq_ok_iff.2 ⟨hinfos, rfl⟩
  refine ⟨fun info _ mappings hmappings => ?_, _, _, hown, hdependencies,
    fun layout => ⟨fun hmarked => ?_, fun hplain => ?_⟩, fun files' hsame => ?_⟩
  · obtain ⟨text, -, hread⟩ := Option.bind_eq_some_iff.1 hmappings
    exact ClassInfo.ascending_of_read? hread
  · rw [LayoutTypes.get?, get?_ofFiles hown, if_pos (registers_iff.2 hmarked), Option.some_or]
    rfl
  · rw [LayoutTypes.get?, get?_ofFiles hown, if_neg (mt registers_iff.1 hplain), Option.none_or,
      get?_ofClassInfos hdependencies]
    rfl
  · obtain ⟨own', hown', hget⟩ := exists_ofFiles_of_same hsame hown
    refine ⟨own', hown', fun layout => ?_⟩
    rw [LayoutTypes.get?, LayoutTypes.get?, hget]

/-! ## Layouts in files and documents -/

/-- A document with the layout `b`. -/
def firstDocument : String :=
  "\x7b\"mappings\":\x7b\"b\":\x7b\"qualified_name\":\"q.BBinding\"\x7d\x7d\x7d"

/-- A document with the layouts `a`, `b` and `c`. -/
def secondDocument : String :=
  "\x7b\"mappings\":\x7b\"a\":\x7b\"qualified_name\":\"r.ABinding\"\x7d," ++
    "\"b\":\x7b\"qualified_name\":\"r.BBinding\"\x7d," ++
    "\"c\":\x7b\"qualified_name\":\"r.CBinding\"\x7d\x7d\x7d"

/-- A tree with these documents and with two layouts, of which `a` is marked. -/
def filesAndDocuments : Tree :=
  ⟨[(["a.xml"], .file (.text "<layout/>")), (["b.xml"], .file (.text "<View/>")),
    (["1.json"], .file (.text firstDocument)), (["2.json"], .file (.text secondDocument))], []⟩

theorem readText?_filesAndDocuments :
    filesAndDocuments.readText? ⟨"a.xml"⟩ = some "<layout/>" ∧
    filesAndDocuments.readText? ⟨"b.xml"⟩ = some "<View/>" ∧
    filesAndDocuments.readText? ⟨"1.json"⟩ = some firstDocument ∧
    filesAndDocuments.readText? ⟨"2.json"⟩ = some secondDocument := by
  have ha : filesAndDocuments.LiesIn ⟨"a.xml"⟩ [] "a.xml" := by decide
  have hb : filesAndDocuments.LiesIn ⟨"b.xml"⟩ [] "b.xml" := by decide
  have hfirst : filesAndDocuments.LiesIn ⟨"1.json"⟩ [] "1.json" := by decide
  have hsecond : filesAndDocuments.LiesIn ⟨"2.json"⟩ [] "2.json" := by decide
  exact ⟨Tree.readText?_eq_some_iff.2 ⟨_, ha.fileAt?_of_file rfl, rfl⟩,
    Tree.readText?_eq_some_iff.2 ⟨_, hb.fileAt?_of_file rfl, rfl⟩,
    Tree.readText?_eq_some_iff.2 ⟨_, hfirst.fileAt?_of_file rfl, rfl⟩,
    Tree.readText?_eq_some_iff.2 ⟨_, hsecond.fileAt?_of_file rfl, rfl⟩⟩

theorem published?_filesAndDocuments :
    published? filesAndDocuments ⟨"1.json"⟩ = some [("b", "q.BBinding")] ∧
    published? filesAndDocuments ⟨"2.json"⟩ =
      some [("a", "r.ABinding"), ("b", "r.BBinding"), ("c", "r.CBinding")] := by
  obtain ⟨-, -, hfirst, hsecond⟩ := readText?_filesAndDocuments
  have hreadFirst : ClassInfo.read? firstDocument = some [("b", "q.BBinding")] := by
    decide +kernel
  have hreadSecond : ClassInfo.read? secondDocument =
      some [("a", "r.ABinding"), ("b", "r.BBinding"), ("c", "r.CBinding")] := by decide +kernel
  exact ⟨Option.bind_eq_some_iff.2 ⟨_, hfirst, hreadFirst⟩,
    Option.bind_eq_some_iff.2 ⟨_, hsecond, hreadSecond⟩⟩

/-- Only `a` has a file with the marker. -/
theorem marked_filesAndDocuments_iff {layout : String} :
    (∃ file ∈ [(⟨"b.xml"⟩ : Path), ⟨"a.xml"⟩], LayoutData.layoutOfFile file = layout ∧
      ∃ text, filesAndDocuments.readText? file = some text ∧ marker.toList <:+: text.toList) ↔
        layout = "a" := by
  obtain ⟨ha, hb, -, -⟩ := readText?_filesAndDocuments
  have hname : LayoutData.layoutOfFile ⟨"a.xml"⟩ = "a" := by decide
  have hmarker : marker.toList <:+: "<layout/>".toList ∧
      ¬marker.toList <:+: "<View/>".toList := by decide
  constructor
  · rintro ⟨file, hfile, rfl, text, htext, hinfix⟩
    rcases List.mem_pair.1 hfile with rfl | rfl
    · rw [hb, Option.some.injEq] at htext
      exact absurd (htext ▸ hinfix) hmarker.2
    · exact hname
  · rintro rfl
    exact ⟨⟨"a.xml"⟩, List.mem_pair.2 (Or.inr rfl), hname, _, ha, hmarker.1⟩

/-- The layout `a` has its own class, `b` that of the first document although it has a file,
`c` that of the second document, and `d` has no type. -/
theorem get?_filesAndDocuments : ∃ own dependencies,
    ofFiles "p" filesAndDocuments [⟨"b.xml"⟩, ⟨"a.xml"⟩] = .ok own ∧
    ofClassInfos filesAndDocuments [⟨"1.json"⟩, ⟨"2.json"⟩] = .ok dependencies ∧
    LayoutTypes.get? ⟨own, dependencies⟩ "a" = some (.named "p.databinding.ABinding") ∧
    LayoutTypes.get? ⟨own, dependencies⟩ "b" = some (.named "q.BBinding") ∧
    LayoutTypes.get? ⟨own, dependencies⟩ "c" = some (.named "r.CBinding") ∧
    LayoutTypes.get? ⟨own, dependencies⟩ "d" = none := by
  obtain ⟨ha, hb, -, -⟩ := readText?_filesAndDocuments
  obtain ⟨hfirst, hsecond⟩ := published?_filesAndDocuments
  have hfiles : ∀ file ∈ [(⟨"b.xml"⟩ : Path), ⟨"a.xml"⟩],
      ∃ text, filesAndDocuments.readText? file = some text := by
    intro file hfile
    rcases List.mem_pair.1 hfile with rfl | rfl
    · exact ⟨_, hb⟩
    · exact ⟨_, ha⟩
  have hinfos : ∀ info ∈ [(⟨"1.json"⟩ : Path), ⟨"2.json"⟩],
      ∃ mappings, published? filesAndDocuments info = some mappings := by
    intro info hinfo
    rcases List.mem_pair.1 hinfo with rfl | rfl
    · exact ⟨_, hfirst⟩
    · exact ⟨_, hsecond⟩
  obtain ⟨-, own, dependencies, hown, hdependencies, htypes, -⟩ :=
    get?_of_files_and_documents "p" hfiles hinfos
  refine ⟨own, dependencies, hown, hdependencies,
    ((htypes "a").1 (marked_filesAndDocuments_iff.2 rfl)).trans (by decide),
    ((htypes "b").2 (mt marked_filesAndDocuments_iff.1 (by decide))).trans ?_,
    ((htypes "c").2 (mt marked_filesAndDocuments_iff.1 (by decide))).trans ?_,
    ((htypes "d").2 (mt marked_filesAndDocuments_iff.1 (by decide))).trans ?_⟩
  all_goals
    simp only [List.findSome?_cons, List.findSome?_nil, hfirst, hsecond, Option.bind_some]
    decide

end LayoutTypes
end ResourceStubs
