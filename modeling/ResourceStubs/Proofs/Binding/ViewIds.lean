import ResourceStubs.Proofs.Binding.ReadLayouts
import ResourceStubs.Proofs.Text.Cut

/-!
# New ids of a layout and ids of a document

The attribute `android:id` is read twice.  A layout binds its views by what follows the
last `@+id/` of a reference that has a plus sign somewhere (`NewName`), and the class `R`
has what follows the first `id/` of a reference, if that is something and the reference is
not one to the platform (`Declares`).

The two agree on a reference such as `@+id/title`, and they agree on nothing but references
that are put together like it (`declares_iff_isPlain`).  `rawNames_of_readContents` says what
follows for a layout: its bindings may have names that are no ids, and do where a reference
has nothing behind `@+id/`, has it twice, or has a plus sign and no `@+id/`.
-/

namespace ResourceStubs

open Text

namespace ViewId

variable {reference name : String}

/-! ## The ids of a document -/

/-- Does a reference declare an id of the class `R`?  The id is what follows the first
`id/`. -/
structure Declares (reference name : String) : Prop where
  own : ¬"@android:".toList <:+: reference.toList
  named : name ≠ ""
  first : ∃ before, reference.toList = before ++ "id/".toList ++ name.toList ∧
    ¬"id/".toList <:+: before

theorem cutFirst?_id_iff {text before after : List Char} :
    cutFirst? "id/".toList text = some (before, after) ↔
      text = before ++ "id/".toList ++ after ∧ ¬"id/".toList <:+: before := by
  have hpattern : "id/".toList = "id".toList ++ ['/'] := rfl
  have hdropLast : "id/".toList.dropLast = "id".toList := rfl
  rw [cutFirst?_pattern_eq_some_iff (by decide), hdropLast, hpattern,
    infix_append_iff_of_notMem (by decide)]

theorem declared?_eq_some_iff : declared? reference = some name ↔ Declares reference name := by
  unfold declared?
  split
  · rename_i hplatform
    exact ⟨fun h => by simp at h, fun h => absurd (occursIn_iff.1 hplatform) h.own⟩
  · rename_i hplatform
    rw [occursIn_iff] at hplatform
    constructor
    · intro h
      split at h
      · rename_i before c cs hcut
        rw [← Option.some.inj h]
        have hid : (String.ofList (c :: cs)).toList = c :: cs := String.toList_ofList
        refine ⟨hplatform, fun hempty => ?_, before, by rw [hid]; exact cutFirst?_id_iff.1 hcut⟩
        rw [hempty] at hid
        exact List.cons_ne_nil c cs hid.symm
      · simp at h
    · rintro ⟨-, hname, before, htext, hbefore⟩
      rw [cutFirst?_id_iff.2 ⟨htext, hbefore⟩]
      cases hcs : name.toList with
      | nil => exact absurd (String.toList_inj.1 hcs) hname
      | cons c cs => exact congrArg some (String.toList_inj.1 (hcs ▸ String.toList_ofList))

/-- The tags of a document, up to where it breaks. -/
def tagsIn (contents : String) : List Markup.Tag :=
  (Markup.tagsOf (Markup.read contents)).tags

/-- Does one of some tags declare an id? -/
def DeclaredIn (tags : List Markup.Tag) (name : String) : Prop :=
  ∃ tag ∈ tags, ∃ reference, tag.attributes.get? key = some reference ∧ Declares reference name

theorem DeclaredIn.ne_empty {tags : List Markup.Tag} (h : DeclaredIn tags name) : name ≠ "" := by
  obtain ⟨tag, -, reference, -, hdeclares⟩ := h
  exact hdeclares.named

/-- **The ids of a document are those that its tags declare.** -/
theorem mem_readAll?_iff {contents : String} {ids : List String}
    (h : readAll? contents = some ids) : name ∈ ids ↔ DeclaredIn (tagsIn contents) name := by
  unfold readAll? ofTags? at h
  split at h
  · rw [← Option.some.inj h, List.mem_filterMap]
    refine exists_congr fun tag => and_congr_right fun _ => ?_
    rw [ofTag?, Option.bind_eq_some_iff]
    exact exists_congr fun reference => and_congr_right fun _ => declared?_eq_some_iff
  · simp at h

/-! ## The new ids of a layout -/

/-- Is `name` what a reference with a plus sign is bound by?  It is what follows the last
`@+id/`, and without one it is the reference. -/
structure NewName (reference name : String) : Prop where
  plus : '+' ∈ reference.toList
  last : (∃ before, reference.toList = before ++ "@+id/".toList ++ name.toList ∧
      ¬"@+id/".toList <:+: name.toList) ∨
    ¬"@+id/".toList <:+: reference.toList ∧ name = reference

theorem cutLast?_newId_iff {text before after : List Char} :
    cutLast? "@+id/".toList text = some (before, after) ↔
      text = before ++ "@+id/".toList ++ after ∧ ¬"@+id/".toList <:+: after := by
  have hpattern : "@+id/".toList = '@' :: "+id/".toList := rfl
  have htail : "@+id/".toList.tail = "+id/".toList := rfl
  rw [cutLast?_pattern_eq_some_iff (by decide), htail, hpattern,
    append_infix_iff_of_notMem (by decide)]

theorem afterLast_newId_iff {after : List Char} :
    afterLast "@+id/".toList reference.toList = after ↔
      (∃ before, reference.toList = before ++ "@+id/".toList ++ after ∧
        ¬"@+id/".toList <:+: after) ∨
      ¬"@+id/".toList <:+: reference.toList ∧ after = reference.toList := by
  unfold afterLast
  cases hcut : cutLast? "@+id/".toList reference.toList with
  | none =>
      have hnone := cutLast?_pattern_eq_none_iff.1 hcut
      constructor
      · exact fun h => Or.inr ⟨hnone, h.symm⟩
      · rintro (⟨before, htext, -⟩ | ⟨-, h⟩)
        · exact absurd ⟨before, after, htext.symm⟩ hnone
        · exact h.symm
  | some parts =>
      obtain ⟨front, rest⟩ := parts
      have hsome := cutLast?_newId_iff.1 hcut
      constructor
      · rintro rfl
        exact Or.inl ⟨front, hsome⟩
      · rintro (⟨before, htext⟩ | ⟨hnone, -⟩)
        · have hparts := hcut.symm.trans (cutLast?_newId_iff.2 htext)
          exact (Prod.mk.inj (Option.some.inj hparts)).2
        · exact absurd ⟨front, rest, hsome.1.symm⟩ hnone

end ViewId

namespace Layout

open ViewId

variable {package : String} {types : LayoutTypes} {file : Path} {contents : String}
  {d : LayoutData}

theorem newId?_eq_some_iff {tag : Markup.Tag} {name : String} :
    newId? tag = some name ↔
      ∃ reference, tag.attributes.get? ViewId.key = some reference ∧ NewName reference name := by
  have hname : ∀ reference : String,
      String.ofList (afterLast "@+id/".toList reference.toList) = name ↔
        afterLast "@+id/".toList reference.toList = name.toList := fun reference => by
    rw [← String.toList_inj, String.toList_ofList]
  unfold newId?
  cases tag.attributes.get? ViewId.key with
  | none => simp
  | some reference =>
      simp only [Option.some.injEq, exists_eq_left']
      split
      · rename_i hplus
        rw [Option.some.injEq, hname, afterLast_newId_iff, String.toList_inj]
        exact ⟨fun h => ⟨hplus, h⟩, NewName.last⟩
      · rename_i hplus
        exact ⟨fun h => by simp at h, fun h => absurd h.plus hplus⟩

/-- Does one of some tags have this reference, and is it bound under this name? -/
def NewIdIn (tags : List Markup.Tag) (reference name : String) : Prop :=
  ∃ tag ∈ tags, IsElement tag ∧ tag.attributes.get? ViewId.key = some reference ∧
    NewName reference name

theorem NewIdIn.newName {tags : List Markup.Tag} {reference name : String}
    (h : NewIdIn tags reference name) : NewName reference name := by
  obtain ⟨tag, -, -, -, hname⟩ := h
  exact hname

theorem rawName_of_bindingOf {tag : Markup.Tag} {rawName : String} {b : Binding}
    (h : bindingOf package types file tag rawName = .ok b) : b.rawName = rawName := by
  unfold bindingOf at h
  split at h
  · obtain ⟨reference, -, h⟩ := bind_eq_ok_iff.1 h
    rw [← Except.ok.inj h]
  · rw [← Except.ok.inj h]

/-- Every binding comes of a tag with a new id. -/
theorem exists_tag_of_foldlM {tags : List Markup.Tag} {s : LayoutState}
    (h : tags.foldlM (readTag package types file) .start = .ok s) :
    ∀ b ∈ s.bindings, ∃ tag ∈ tags, IsElement tag ∧ newId? tag = some b.rawName := by
  refine foldlM_induction (P := fun s : LayoutState => ∀ b ∈ s.bindings,
    ∃ tag ∈ tags, IsElement tag ∧ newId? tag = some b.rawName) h ?_ fun s hs tag htag s' h' => ?_
  · exact fun b hb => absurd hb List.not_mem_nil
  · cases readTag_eq_ok_iff.1 h' with
    | imported | declared | unnamed => exact hs
    | bound hname rawName hid b hb =>
        intro b' hb'
        rcases mem_or_eq_of_mem_keepFirst hb' with hb' | rfl
        · exact hs b' hb'
        · exact ⟨tag, htag, hname, (rawName_of_bindingOf hb).symm ▸ hid⟩

/-- Every new id is bound. -/
theorem exists_binding_of_foldlM {tags : List Markup.Tag} {s : LayoutState}
    (h : tags.foldlM (readTag package types file) .start = .ok s) {tag : Markup.Tag}
    (htag : tag ∈ tags) (helement : IsElement tag) {rawName : String}
    (hid : newId? tag = some rawName) : rawName ∈ s.bindings.map Binding.rawName := by
  refine foldlM_of_mem (P := fun s : LayoutState => rawName ∈ s.bindings.map Binding.rawName) h
    htag (fun s s' h' => ?_) fun s hs other _ s' h' => ?_
  · cases readTag_eq_ok_iff.1 h' with
    | imported hname => exact absurd hname helement.1
    | declared hname => exact absurd hname helement.2
    | unnamed _ hnone => exact absurd (hnone.symm.trans hid) (by simp)
    | bound _ rawName' hid' b hb =>
        obtain rfl : rawName' = rawName := Option.some.inj (hid'.symm.trans hid)
        exact mem_map_keepFirst_iff.2 (Or.inr (rawName_of_bindingOf hb).symm)
  · cases readTag_eq_ok_iff.1 h' with
    | imported | declared | unnamed => exact hs
    | bound => exact mem_map_keepFirst_iff.2 (Or.inl hs)

/-- **A layout is bound by its new ids**, and by no other names. -/
theorem mem_rawNames_iff (h : readContents package types file contents = .ok d)
    {name : String} : (∃ b ∈ d.bindings, b.rawName = name) ↔
      ∃ reference, NewIdIn (tagsIn contents) reference name := by
  obtain ⟨s, hs, -, rfl⟩ := readTags_eq_ok_iff.1 h
  constructor
  · rintro ⟨b, hb, rfl⟩
    obtain ⟨tag, htag, helement, hid⟩ := exists_tag_of_foldlM hs b hb
    obtain ⟨reference, hreference, hname⟩ := newId?_eq_some_iff.1 hid
    exact ⟨reference, tag, htag, helement, hreference, hname⟩
  · rintro ⟨reference, tag, htag, helement, hreference, hname⟩
    have hid := newId?_eq_some_iff.2 ⟨reference, hreference, hname⟩
    exact List.mem_map.1 (exists_binding_of_foldlM hs htag helement hid)

end Layout

/-! ## Where the two agree -/

namespace ViewId

variable {reference name : String}

/-- Is a reference put together of `@+id/` and a name, with no `id/` in front of it? -/
structure IsPlain (reference name : String) : Prop where
  own : ¬"@android:".toList <:+: reference.toList
  named : name ≠ ""
  only : ∃ before, reference.toList = before ++ "@+id/".toList ++ name.toList ∧
    ¬"id/".toList <:+: before

/-- **A name that a layout binds is the id that its reference declares if the reference is
plain, and only then.** -/
theorem declares_iff_isPlain (h : NewName reference name) :
    Declares reference name ↔ IsPlain reference name := by
  have hid : "id/".toList = "id".toList ++ ['/'] := rfl
  have hidLength : "id/".toList.length = 3 := rfl
  have hfront : ∀ before : List Char,
      "id/".toList <:+: before ++ "@+".toList ↔ "id/".toList <:+: before := fun before => by
    rw [hid, infix_append_iff_of_notMem (by decide)]
  have hjoined : ∀ before : List Char, before ++ "@+id/".toList ++ name.toList =
      before ++ "@+".toList ++ "id/".toList ++ name.toList := fun before => by
    have hsplit : "@+id/".toList = "@+".toList ++ "id/".toList := rfl
    rw [hsplit, ← List.append_assoc before]
  constructor
  · rintro ⟨hown, hnamed, front, htext, hnot⟩
    refine ⟨hown, hnamed, ?_⟩
    rcases h.last with ⟨before, hlast, -⟩ | ⟨-, rfl⟩
    · refine ⟨before, hlast, ?_⟩
      -- in front of the name both readers have seen the same
      have heq : before ++ "@+".toList = front := by
        rw [hjoined, htext] at hlast
        exact (List.append_cancel_right (List.append_cancel_right hlast)).symm
      rwa [← hfront, heq]
    · have hlength := congrArg List.length htext
      rw [List.length_append, List.length_append, hidLength] at hlength
      omega
  · rintro ⟨hown, hnamed, before, htext, hnot⟩
    exact ⟨hown, hnamed, before ++ "@+".toList, htext.trans (hjoined before),
      mt (hfront before).1 hnot⟩

/-- A reference is plain if it names an id with no colon in it. -/
theorem isPlain_of_colon_notMem (hne : name ≠ "") (hcolon : ':' ∉ name.toList) :
    IsPlain ("@+id/" ++ name) name := by
  refine ⟨fun hoccurs => ?_, hne, [], String.toList_append, by decide⟩
  have hmem : ':' ∈ ("@+id/" ++ name).toList := hoccurs.subset (by decide)
  rw [String.toList_append, List.mem_append] at hmem
  exact hmem.elim (by decide) hcolon

end ViewId

namespace Layout

open ViewId

variable {package : String} {types : LayoutTypes} {file : Path} {contents : String}
  {d : LayoutData}

/-! ## A view with an id, and one without a name -/

/-- A layout with one view. -/
def titled : String :=
  "<layout><View android:id='@+id/title'/></layout>"

/-- A layout with a view whose reference ends where the name should stand. -/
def untitled : String :=
  "<layout><View android:id='@+id/'/></layout>"

/-- The tag of a view with a reference. -/
def viewWithId (reference : String) : Markup.Tag :=
  ⟨"View", ⟨[(ViewId.key, reference)]⟩⟩

/-- A view that is bound under this name. -/
def viewNamed (rawName : String) : Binding :=
  ⟨rawName, .named "android.view.View", .view⟩

theorem tagsOf_titled : Markup.tagsOf (Markup.read titled) =
    ⟨[⟨"layout", ⟨[]⟩⟩, viewWithId "@+id/title"], true⟩ := by
  decide +kernel

theorem tagsOf_untitled : Markup.tagsOf (Markup.read untitled) =
    ⟨[⟨"layout", ⟨[]⟩⟩, viewWithId "@+id/"], true⟩ := by
  decide +kernel

theorem bindingOf_viewWithId (reference rawName : String) :
    bindingOf package types file (viewWithId reference) rawName = .ok (viewNamed rawName) := by
  have htype : viewType "View" = .named "android.view.View" := by decide
  have hname : (viewWithId reference).name ≠ "include" := by
    show "View" ≠ "include"
    decide
  rw [bindingOf, if_neg hname, viewNamed, ← htype]
  rfl

theorem readContents_titled : readContents package types file titled =
    .ok ⟨LayoutData.layoutOfFile file, some file, [viewNamed "title"], []⟩ :=
  readContents_of_newId tagsOf_titled (by decide) (by decide) (bindingOf_viewWithId _ _)

theorem readContents_untitled : readContents package types file untitled =
    .ok ⟨LayoutData.layoutOfFile file, some file, [viewNamed ""], []⟩ :=
  readContents_of_newId tagsOf_untitled (by decide) (by decide) (bindingOf_viewWithId _ _)

theorem isPlain_of_newIdIn_titled {reference name : String}
    (h : NewIdIn (tagsIn titled) reference name) : IsPlain reference name := by
  obtain ⟨tag, htag, -, hreference, hname⟩ := h
  have hid := newId?_eq_some_iff.2 ⟨reference, hreference, hname⟩
  rw [tagsIn, tagsOf_titled] at htag
  rcases List.mem_pair.1 htag with rfl | rfl
  · exact absurd hid (by simp [newId?, Markup.Attributes.get?])
  · have htitle : newId? (viewWithId "@+id/title") = some "title" := by decide
    obtain rfl : "@+id/title" = reference := Option.some.inj hreference
    obtain rfl : "title" = name := Option.some.inj (htitle.symm.trans hid)
    have hplain : IsPlain ("@+id/" ++ "title") "title" :=
      isPlain_of_colon_notMem (by decide) (by decide)
    exact hplain

/-! ## Bindings and ids -/

/-- **When the bindings of a layout are ids.**  Let a layout be read, and the ids in it.
Every binding has the name of an id exactly when every new id of the layout is declared
somewhere in it, in whatever reference.  The reference that a binding comes of declares its
name exactly when it is plain.  So all bindings have names of ids if all references with a
plus sign are plain. -/
theorem rawNames_of_readContents {ids : List String}
    (h : readContents package types file contents = .ok d)
    (hids : readAll? contents = some ids) :
    ((∀ b ∈ d.bindings, b.rawName ≠ "" ∧ b.rawName ∈ ids) ↔
      ∀ reference name, NewIdIn (tagsIn contents) reference name →
        DeclaredIn (tagsIn contents) name) ∧
    (∀ b ∈ d.bindings, ∃ reference, NewIdIn (tagsIn contents) reference b.rawName ∧
      (Declares reference b.rawName ↔ IsPlain reference b.rawName)) ∧
    ((∀ reference name, NewIdIn (tagsIn contents) reference name → IsPlain reference name) →
      ∀ b ∈ d.bindings, b.rawName ≠ "" ∧ b.rawName ∈ ids) := by
  have hiff : (∀ b ∈ d.bindings, b.rawName ≠ "" ∧ b.rawName ∈ ids) ↔
      ∀ reference name, NewIdIn (tagsIn contents) reference name →
        DeclaredIn (tagsIn contents) name := by
    constructor
    · intro hall reference name hnew
      obtain ⟨b, hb, rfl⟩ := (mem_rawNames_iff h).2 ⟨reference, hnew⟩
      exact (mem_readAll?_iff hids).1 (hall b hb).2
    · intro hall b hb
      obtain ⟨reference, hnew⟩ := (mem_rawNames_iff h).1 ⟨b, hb, rfl⟩
      have hdeclared := hall reference b.rawName hnew
      exact ⟨hdeclared.ne_empty, (mem_readAll?_iff hids).2 hdeclared⟩
  refine ⟨hiff, fun b hb => ?_, fun hplain => hiff.2 fun reference name hnew => ?_⟩
  · obtain ⟨reference, hnew⟩ := (mem_rawNames_iff h).1 ⟨b, hb, rfl⟩
    exact ⟨reference, hnew, declares_iff_isPlain hnew.newName⟩
  · have hdeclares := (declares_iff_isPlain hnew.newName).2 (hplain reference name hnew)
    obtain ⟨tag, htag, -, hreference, -⟩ := hnew
    exact ⟨tag, htag, reference, hreference, hdeclares⟩

theorem rawNames_titled :
    readContents "p" ⟨.empty, .empty⟩ ⟨"layout/a.xml"⟩ titled =
        .ok ⟨"a", some ⟨"layout/a.xml"⟩, [viewNamed "title"], []⟩ ∧
      readAll? titled = some ["title"] ∧
      ∀ b ∈ [viewNamed "title"], b.rawName ≠ "" ∧ b.rawName ∈ ["title"] := by
  have hread : readContents "p" ⟨.empty, .empty⟩ ⟨"layout/a.xml"⟩ titled =
      .ok ⟨"a", some ⟨"layout/a.xml"⟩, [viewNamed "title"], []⟩ := readContents_titled
  have hids : readAll? titled = some ["title"] := by decide +kernel
  obtain ⟨-, -, hplain⟩ := rawNames_of_readContents hread hids
  exact ⟨hread, hids, hplain fun _ _ => isPlain_of_newIdIn_titled⟩

/-- **A binding may have the name of no id.**  The view without a name is bound under the
empty name, and the document declares no id. -/
theorem rawName_untitled : ¬∀ (package : String) (types : LayoutTypes) (file : Path)
    (contents : String) (d : LayoutData) (ids : List String),
    readContents package types file contents = .ok d → readAll? contents = some ids →
      ∀ b ∈ d.bindings, b.rawName ≠ "" ∧ b.rawName ∈ ids := by
  intro hall
  have hids : readAll? untitled = some [] := by decide +kernel
  have hbound := hall "p" ⟨.empty, .empty⟩ ⟨"layout/a.xml"⟩ untitled _ _ readContents_untitled hids
    (viewNamed "") List.mem_cons_self
  exact hbound.1 rfl

end Layout
end ResourceStubs
