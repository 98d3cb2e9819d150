import ResourceStubs.Binding.Layout
import ResourceStubs.Proofs.List.ExceptSteps
import ResourceStubs.Proofs.List.FirstOfEach

/-!
# What is kept of the layout files

A tag is read by making one of four steps (`readTag_eq_ok_iff`), from which follows what a
whole file leads to.

Of the files of one layout the first is kept (`mem_readFiles_iff`).  What is read of a
file names the file, and gives every included layout the type that the stores have for it,
or the class that it would have in the module (`includedType_of_readFile`).

Reading asks the stores for types and for nothing else, so two pairs of stores with the
same types lead to the same layouts (`readFile_congr`).
-/

namespace ResourceStubs
namespace Layout

variable {package : String} {types : LayoutTypes} {tree : Tree} {file : Path} {d : LayoutData}

/-- Does an included layout have the type that is looked up for it? -/
def FollowsTypes (package : String) (types : LayoutTypes) (b : Binding) : Prop :=
  ∀ layout missing, b.kind = .included layout missing →
    (b.type, missing) = includedType package types layout

theorem followsTypes_bindingOf {tag : Markup.Tag} {rawName : String} {b : Binding}
    (h : bindingOf package types file tag rawName = .ok b) : FollowsTypes package types b := by
  unfold bindingOf at h
  split at h
  · obtain ⟨reference, -, h⟩ := bind_eq_ok_iff.1 h
    intro layout missing hkind
    rw [← Except.ok.inj h] at hkind ⊢
    obtain ⟨rfl, rfl⟩ := BindingKind.included.inj hkind
    rfl
  · intro layout missing hkind
    rw [← Except.ok.inj h] at hkind
    exact absurd hkind (by simp)

/-- Does a tag stand for something in the layout?  Imports and variables do not. -/
def IsElement (tag : Markup.Tag) : Prop := tag.name ≠ "import" ∧ tag.name ≠ "variable"

instance (tag : Markup.Tag) : Decidable (IsElement tag) := inferInstanceAs (Decidable (_ ∧ _))

/-- What one tag can do to what has been read. -/
inductive TagStep (package : String) (types : LayoutTypes) (file : Path) (tag : Markup.Tag)
    (s : LayoutState) : LayoutState → Prop
  | imported (hname : tag.name = "import") (expression : String) (type : JavaType)
      (hexpression : required file tag "type" = .ok expression)
      (htype : resolveIn file tag s.aliases expression = .ok type) :
      TagStep package types file tag s
        { s with
          aliases := s.aliases.insert
            ((tag.attributes.get? "alias").getD (simpleName expression)) type }
  | declared (hname : tag.name = "variable") (rawName expression : String) (type : JavaType)
      (hrawName : required file tag "name" = .ok rawName)
      (hexpression : required file tag "type" = .ok expression)
      (htype : resolveIn file tag s.aliases expression = .ok type) :
      TagStep package types file tag s
        { s with bindables := keepFirst Binding.rawName s.bindables ⟨rawName, type, .variable⟩ }
  | unnamed (hname : IsElement tag) (hid : newId? tag = none) : TagStep package types file tag s s
  | bound (hname : IsElement tag) (rawName : String) (hid : newId? tag = some rawName)
      (b : Binding) (hb : bindingOf package types file tag rawName = .ok b) :
      TagStep package types file tag s
        { s with bindings := keepFirst Binding.rawName s.bindings b }

/-- **A tag is read by making one of these steps.** -/
theorem readTag_eq_ok_iff {s s' : LayoutState} {tag : Markup.Tag} :
    readTag package types file s tag = .ok s' ↔ TagStep package types file tag s s' := by
  constructor
  · intro h
    unfold readTag at h
    split at h
    · rename_i himport
      obtain ⟨expression, hexpression, h⟩ := bind_eq_ok_iff.1 h
      obtain ⟨type, htype, h⟩ := bind_eq_ok_iff.1 h
      rw [← Except.ok.inj h]
      exact .imported himport expression type hexpression htype
    · rename_i himport
      split at h
      · rename_i hvariable
        obtain ⟨rawName, hrawName, h⟩ := bind_eq_ok_iff.1 h
        obtain ⟨expression, hexpression, h⟩ := bind_eq_ok_iff.1 h
        obtain ⟨type, htype, h⟩ := bind_eq_ok_iff.1 h
        rw [← Except.ok.inj h, LayoutState.pushNamed_eq]
        exact .declared hvariable rawName expression type hrawName hexpression htype
      · rename_i hvariable
        split at h
        · rename_i hid
          rw [← Except.ok.inj h]
          exact .unnamed ⟨himport, hvariable⟩ hid
        · rename_i rawName hid
          obtain ⟨b, hb, h⟩ := bind_eq_ok_iff.1 h
          rw [← Except.ok.inj h, LayoutState.pushNamed_eq]
          exact .bound ⟨himport, hvariable⟩ rawName hid b hb
  · intro h
    unfold readTag
    cases h with
    | imported hname expression type hexpression htype =>
        rw [if_pos hname]
        exact bind_eq_ok_iff.2 ⟨expression, hexpression, bind_eq_ok_iff.2 ⟨type, htype, rfl⟩⟩
    | declared hname rawName expression type hrawName hexpression htype =>
        rw [if_neg (by rw [hname]; decide), if_pos hname]
        exact bind_eq_ok_iff.2 ⟨rawName, hrawName, bind_eq_ok_iff.2
          ⟨expression, hexpression, bind_eq_ok_iff.2 ⟨type, htype, rfl⟩⟩⟩
    | unnamed hname hid =>
        rw [if_neg hname.1, if_neg hname.2, hid]
        rfl
    | bound hname rawName hid b hb =>
        rw [if_neg hname.1, if_neg hname.2, hid]
        exact bind_eq_ok_iff.2 ⟨b, hb, rfl⟩

theorem followsTypes_readTag {s s' : LayoutState} {tag : Markup.Tag}
    (hs : ∀ b ∈ s.bindings, FollowsTypes package types b)
    (h : readTag package types file s tag = .ok s') :
    ∀ b ∈ s'.bindings, FollowsTypes package types b := by
  cases readTag_eq_ok_iff.1 h with
  | imported | declared | unnamed => exact hs
  | bound hname rawName hid b hb =>
      intro b' hb'
      rcases mem_or_eq_of_mem_keepFirst hb' with hb' | rfl
      · exact hs b' hb'
      · exact followsTypes_bindingOf hb

theorem readTags_eq_ok_iff {sequence : Markup.TagSequence} :
    readTags package types file sequence = .ok d ↔
      ∃ s, sequence.tags.foldlM (readTag package types file) .start = .ok s ∧
        sequence.whole = true ∧
          d = ⟨LayoutData.layoutOfFile file, some file, s.bindings, s.bindables⟩ := by
  rw [readTags, bind_eq_ok_iff]
  refine exists_congr fun s => and_congr_right fun _ => ?_
  split
  · rename_i hwhole
    exact ⟨fun h => ⟨hwhole, (Except.ok.inj h).symm⟩, fun h => by rw [h.2]; rfl⟩
  · rename_i hwhole
    refine ⟨fun h => absurd h throw_ne_ok, fun h => ?_⟩
    exact absurd h.1 hwhole

theorem readFile_eq_ok_iff :
    readFile package types tree file = .ok d ↔ ∃ contents, tree.readText? file = some contents ∧
      readContents package types file contents = .ok d := by
  rw [readFile, bind_eq_ok_iff]
  exact exists_congr fun contents => and_congr_left fun _ => Tree.read_eq_ok_iff

theorem readContents_of_tags {contents : String} {tags : List Markup.Tag} {s : LayoutState}
    (htags : Markup.tagsOf (Markup.read contents) = ⟨tags, true⟩)
    (h : tags.foldlM (readTag package types file) .start = .ok s) :
    readContents package types file contents =
      .ok ⟨LayoutData.layoutOfFile file, some file, s.bindings, s.bindables⟩ := by
  rw [readContents, htags]
  exact readTags_eq_ok_iff.2 ⟨s, h, rfl, rfl⟩

theorem readFile_of_tags {contents : String} {tags : List Markup.Tag} {s : LayoutState}
    (hread : tree.readText? file = some contents)
    (htags : Markup.tagsOf (Markup.read contents) = ⟨tags, true⟩)
    (h : tags.foldlM (readTag package types file) .start = .ok s) :
    readFile package types tree file =
      .ok ⟨LayoutData.layoutOfFile file, some file, s.bindings, s.bindables⟩ :=
  readFile_eq_ok_iff.2 ⟨contents, hread, readContents_of_tags htags h⟩

/-- A layout with one view or include in it, which has a new id. -/
theorem readContents_of_newId {contents rawName : String} {tag : Markup.Tag} {b : Binding}
    (htags : Markup.tagsOf (Markup.read contents) = ⟨[⟨"layout", ⟨[]⟩⟩, tag], true⟩)
    (hname : IsElement tag) (hid : newId? tag = some rawName)
    (hb : bindingOf package types file tag rawName = .ok b) :
    readContents package types file contents =
      .ok ⟨LayoutData.layoutOfFile file, some file, [b], []⟩ := by
  refine readContents_of_tags (s := ⟨[], [b], []⟩) htags ?_
  rw [List.foldlM_cons]
  refine bind_eq_ok_iff.2 ⟨.start, rfl, ?_⟩
  rw [List.foldlM_cons]
  exact bind_eq_ok_iff.2 ⟨⟨[], [b], []⟩, readTag_eq_ok_iff.2 (.bound hname rawName hid b hb), rfl⟩

theorem readFile_of_newId {contents rawName : String} {tag : Markup.Tag} {b : Binding}
    (hread : tree.readText? file = some contents)
    (htags : Markup.tagsOf (Markup.read contents) = ⟨[⟨"layout", ⟨[]⟩⟩, tag], true⟩)
    (hname : IsElement tag) (hid : newId? tag = some rawName)
    (hb : bindingOf package types file tag rawName = .ok b) :
    readFile package types tree file =
      .ok ⟨LayoutData.layoutOfFile file, some file, [b], []⟩ :=
  readFile_eq_ok_iff.2 ⟨contents, hread, readContents_of_newId htags hname hid hb⟩

/-- **Included layouts have the types that are looked up for them.** -/
theorem includedType_of_readFile (h : readFile package types tree file = .ok d) :
    ∀ b ∈ d.bindings, FollowsTypes package types b := by
  obtain ⟨contents, -, h⟩ := readFile_eq_ok_iff.1 h
  obtain ⟨s, hs, -, rfl⟩ := readTags_eq_ok_iff.1 h
  refine foldlM_induction (P := fun s : LayoutState =>
    ∀ b ∈ s.bindings, FollowsTypes package types b) hs ?_ fun s hs tag _ s' h' =>
      followsTypes_readTag hs h'
  intro b hb
  exact absurd hb List.not_mem_nil

theorem layout_of_readFile (h : readFile package types tree file = .ok d) :
    d.layout = LayoutData.layoutOfFile file ∧ d.file = some file := by
  obtain ⟨contents, -, h⟩ := readFile_eq_ok_iff.1 h
  obtain ⟨s, -, -, rfl⟩ := readTags_eq_ok_iff.1 h
  exact ⟨rfl, rfl⟩

/-- **Stores with the same types lead to the same layouts.** -/
theorem readFile_congr {types' : LayoutTypes} (h : types.get? = types'.get?) :
    readFile package types = readFile package types' := by
  have hincluded : includedType package types = includedType package types' := by
    funext layout
    rw [includedType, includedType, h]
  have hbinding : bindingOf package types = bindingOf package types' := by
    funext file tag rawName
    rw [bindingOf, bindingOf, hincluded]
  have htag : readTag package types = readTag package types' := by
    funext file s tag
    rw [readTag, readTag, hbinding]
  funext tree file
  rw [readFile, readFile]
  refine congrArg _ (funext fun contents => ?_)
  rw [readContents, readContents, readTags, readTags, htag]

/-! ## The first file of each layout -/

/-- The first file of a layout. -/
def firstFile? (files : List Path) (layout : String) : Option Path :=
  files.find? fun file => LayoutData.layoutOfFile file == layout

/-- The first layout of a name was read of the first file of that name. -/
theorem find?_parsed_iff {files : List Path} {parsed : List LayoutData}
    (h : files.mapM (readFile package types tree) = .ok parsed) {layout : String} :
    (parsed.find? fun d => d.layout == layout) = some d ↔
      ∃ file, firstFile? files layout = some file ∧
        readFile package types tree file = .ok d := by
  rw [mapM_eq_ok_iff] at h
  induction h with
  | nil => simp [firstFile?]
  | @cons file d₀ files parsed hfile _ ih =>
      have hname := (layout_of_readFile hfile).1
      rw [List.find?_cons]
      by_cases heq : LayoutData.layoutOfFile file = layout
      · have hlayout : (d₀.layout == layout) = true := by rw [hname, heq, beq_self_eq_true]
        have hfirst : firstFile? (file :: files) layout = some file := by
          rw [firstFile?, List.find?_cons_of_pos (by rw [heq, beq_self_eq_true])]
        rw [hlayout, hfirst]
        constructor
        · intro hd
          exact ⟨file, rfl, by rw [hfile, Option.some.inj hd]⟩
        · rintro ⟨x, hx, hd⟩
          rw [← Option.some.inj hx, hfile] at hd
          rw [Except.ok.inj hd]
      · have hlayout : (d₀.layout == layout) = false := by
          rw [hname]
          exact beq_eq_false_iff_ne.2 heq
        have hfirst : firstFile? (file :: files) layout = firstFile? files layout := by
          rw [firstFile?, List.find?_cons_of_neg (by simpa using heq), firstFile?]
        rw [hlayout, hfirst]
        exact ih

theorem readFiles_eq_ok_iff {files : List Path} {layouts : List LayoutData} :
    readFiles package types tree files = .ok layouts ↔
      ∃ parsed, files.mapM (readFile package types tree) = .ok parsed ∧
        layouts = firsts LayoutData.layout [] parsed := by
  rw [readFiles, bind_eq_ok_iff]
  refine exists_congr fun parsed => and_congr_right fun _ => ?_
  rw [← firstOfEachName_eq]
  exact ⟨fun h => (Except.ok.inj h).symm, fun h => by rw [h]; rfl⟩

variable {files : List Path} {layouts : List LayoutData}

/-- **Of the files of one layout the first is kept.** -/
theorem mem_readFiles_iff (h : readFiles package types tree files = .ok layouts) :
    d ∈ layouts ↔ ∃ file, firstFile? files d.layout = some file ∧
      readFile package types tree file = .ok d := by
  obtain ⟨parsed, hparsed, rfl⟩ := readFiles_eq_ok_iff.1 h
  have hnil : (([] : List LayoutData).map LayoutData.layout).Nodup := List.nodup_nil
  rw [mem_firsts_iff hnil, find?_parsed_iff hparsed]
  constructor
  · rintro (hd | ⟨-, hd⟩)
    · exact absurd hd List.not_mem_nil
    · exact hd
  · exact fun hd => Or.inr ⟨List.not_mem_nil, hd⟩

theorem nodup_readFiles (h : readFiles package types tree files = .ok layouts) :
    (layouts.map LayoutData.layout).Nodup := by
  obtain ⟨parsed, -, rfl⟩ := readFiles_eq_ok_iff.1 h
  have hnil : (([] : List LayoutData).map LayoutData.layout).Nodup := List.nodup_nil
  exact nodup_firsts hnil parsed

/-- Every layout that a file is read of is kept in some variant. -/
theorem exists_of_firstFile? (h : readFiles package types tree files = .ok layouts)
    {layout : String} {file : Path} (hfile : firstFile? files layout = some file) :
    ∃ d ∈ layouts, d.layout = layout ∧ d.file = some file := by
  obtain ⟨parsed, hparsed, -⟩ := readFiles_eq_ok_iff.1 h
  have hmem := List.mem_of_find?_eq_some hfile
  have hname : LayoutData.layoutOfFile file = layout := by
    simpa using List.find?_some hfile
  obtain ⟨d, -, hd⟩ := exists_of_mapM_eq_ok hparsed hmem
  obtain ⟨hlayout, hdfile⟩ := layout_of_readFile hd
  refine ⟨d, (mem_readFiles_iff h).2 ⟨file, ?_, hd⟩, hlayout.trans hname, hdfile⟩
  rw [hlayout, hname, hfile]

end Layout
end ResourceStubs
