import ResourceStubs.Proofs.File.Locate

/-!
# Creating directories

Creating directories adds directories where nothing was, and changes nothing else; that
is what `Grown` says.  A path that found something finds it still (`Grown.locate`).

`DirectoriesAlong` says that the directories that segments lead through are all there.

* `directoriesAlong_of_create`: creating them makes it so.
* `DirectoriesAlong.create_eq_self`: then creating them again changes nothing.
* `DirectoriesAlong.put`: putting a file anywhere leaves it so, for a file is never put in
  the place of a directory.
* `grown_of_createDirectories_error`: if one of them cannot be created, those before it
  are all that is new.
-/

namespace ResourceStubs
namespace Tree

variable {t u v : Tree}

/-! ## Trees with more directories -/

/-- The second tree has more directories than the first, and is the same otherwise. -/
structure Grown (t u : Tree) : Prop where
  workingDirectory : u.workingDirectory = t.workingDirectory
  find? : ∀ place, u.find? place = t.find? place ∨
    t.find? place = none ∧ u.find? place = some .directory

theorem Grown.refl (t : Tree) : t.Grown t :=
  ⟨rfl, fun _ => Or.inl rfl⟩

theorem Grown.trans (htu : t.Grown u) (huv : u.Grown v) : t.Grown v where
  workingDirectory := huv.workingDirectory.trans htu.workingDirectory
  find? place := by
    rcases htu.find? place with h | ⟨hnone, hdir⟩
    · rw [← h]
      exact huv.find? place
    · refine Or.inr ⟨hnone, ?_⟩
      rcases huv.find? place with h | ⟨h, -⟩
      · rw [h, hdir]
      · rw [h] at hdir
        exact absurd hdir (by simp)

theorem grown_put {place : Place} (hne : place ≠ []) (h : t.find? place = none) :
    t.Grown (t.put place .directory) where
  workingDirectory := rfl
  find? other := by
    rw [find?_put hne]
    split
    · rename_i hother
      exact Or.inr ⟨by rw [hother, h], rfl⟩
    · exact Or.inl rfl

theorem Grown.find?_of_some (h : t.Grown u) {place : Place} {e : Entry}
    (he : t.find? place = some e) : u.find? place = some e := by
  rcases h.find? place with hsame | ⟨hnone, -⟩
  · rw [hsame, he]
  · rw [hnone] at he
    exact absurd he (by simp)

/-- **What was found is found still.** -/
theorem Grown.locate (h : t.Grown u) {links : Nat} {dir place : Place} {segments : List String}
    {e : Entry} (hfound : t.locate links dir segments = some (.found place e)) :
    u.locate links dir segments = some (.found place e) := by
  fun_induction t.locate links dir segments with
  | case1 links dir => rw [locate_nil, hfound]
  | case2 links dir segment rest hidle ih => rw [locate_cons_of_isIdle hidle, ih hfound]
  | case3 links dir rest hidle ih => rw [locate_up, ih hfound]
  | case4 => exact absurd hfound (by simp)
  | case5 => exact absurd hfound (by simp)
  | case6 links dir segment rest hidle hup other hfind ih =>
      rw [locate_of_directory hidle hup (h.find?_of_some hfind), ih hfound]
  | case7 links dir segment rest hidle hup other content hfind hrest =>
      rw [locate_of_file hidle hup (h.find?_of_some hfind), if_pos hrest, hfound]
  | case8 => exact absurd hfound (by simp)
  | case9 => exact absurd hfound (by simp)
  | case10 dir segment rest hidle hup other target hfind links ih =>
      rw [locate_of_link hidle hup (h.find?_of_some hfind)]
      exact ih hfound

theorem Grown.target? (h : t.Grown u) {p : Path} {place : Place} {e : Entry}
    (hfound : t.target? p = some (.found place e)) : u.target? p = some (.found place e) := by
  have hlocate := h.locate (locate_of_target? hfound)
  rw [Tree.target?] at hfound ⊢
  split at hfound
  · exact absurd hfound (by simp)
  · rename_i hempty
    rw [if_neg hempty, ← hlocate, startOf, startOf, h.workingDirectory]

/-! ## The directories on the way -/

/-- The directories that the segments lead through are there. -/
inductive DirectoriesAlong (t : Tree) : Place → List String → Prop
  | nil (dir : Place) : DirectoriesAlong t dir []
  | idle {dir : Place} {segment : String} {rest : List String}
      (hidle : Path.isIdle segment = true) (hrest : DirectoriesAlong t dir rest) :
      DirectoriesAlong t dir (segment :: rest)
  | up {dir : Place} {rest : List String} (hrest : DirectoriesAlong t dir.dropLast rest) :
      DirectoriesAlong t dir (".." :: rest)
  | directory {dir : Place} {segment : String} {rest : List String}
      (hidle : ¬Path.isIdle segment = true) (hup : ¬segment = "..")
      (hfind : t.find? (dir ++ [segment]) = some .directory)
      (hrest : DirectoriesAlong t (dir ++ [segment]) rest) :
      DirectoriesAlong t dir (segment :: rest)
  | link {dir place : Place} {segment : String} {rest : List String} {target : Path}
      (hidle : ¬Path.isIdle segment = true) (hup : ¬segment = "..")
      (hfind : t.find? (dir ++ [segment]) = some (.link target))
      (hlocate : t.locate linkLimit dir [segment] = some (.found place .directory))
      (hrest : DirectoriesAlong t place rest) : DirectoriesAlong t dir (segment :: rest)

variable {dir : Place} {segments : List String}

/-- **Directories that are there are not created again.** -/
theorem DirectoriesAlong.create_eq_self (h : t.DirectoriesAlong dir segments) :
    t.createDirectoriesFrom dir segments = .ok t := by
  induction h with
  | nil dir => rfl
  | idle hidle _ ih => rw [createDirectoriesFrom, if_pos hidle, ih]
  | up _ ih => rw [createDirectoriesFrom, if_neg (by decide), if_pos rfl, ih]
  | directory hidle hup hfind _ ih =>
      rw [createDirectoriesFrom, if_neg hidle, if_neg hup]
      simp only [hfind, ih]
  | link hidle hup hfind hlocate _ ih =>
      rw [createDirectoriesFrom, if_neg hidle, if_neg hup]
      simp only [hfind, hlocate, ih]

/-- **Putting a file leaves the directories where they are.** -/
theorem DirectoriesAlong.put (h : t.DirectoriesAlong dir segments) {place : Place}
    (hplace : t.MayHold place) (content : Content) :
    (t.put place (.file content)).DirectoriesAlong dir segments := by
  induction h with
  | nil dir => exact .nil dir
  | idle hidle _ ih => exact .idle hidle ih
  | up _ ih => exact .up ih
  | directory hidle hup hfind _ ih =>
      exact .directory hidle hup ((hplace.find?_put content (Or.inl hfind)).trans hfind) ih
  | link hidle hup hfind hlocate _ ih =>
      have hlink := hplace.find?_put content (Or.inr ⟨_, hfind⟩)
      refine .link hidle hup (hlink.trans hfind) ?_ ih
      rw [locate_put hplace, hlocate]
      rfl

theorem LiesIn.directoriesAlong {p : Path} {front : List String} {name : String}
    (h : t.LiesIn p front name) : t.DirectoriesAlong t.workingDirectory front := by
  have halong : ∀ {dir : Place} {segments : List String},
      (∀ s ∈ segments, Path.isIdle s = false ∧ s ≠ "..") →
      (∀ i < segments.length, t.find? (dir ++ segments.take (i + 1)) = some .directory) →
        t.DirectoriesAlong dir segments := by
    intro dir segments hnames hdirs
    induction segments generalizing dir with
    | nil => exact .nil dir
    | cons segment rest ih =>
        obtain ⟨⟨hidle, hup⟩, hnames⟩ := List.forall_mem_cons.1 hnames
        refine .directory (by rw [hidle]; simp) hup (hdirs 0 (Nat.zero_lt_succ _)) (ih hnames ?_)
        intro i hi
        rw [List.append_assoc, List.singleton_append]
        exact hdirs (i + 1) (Nat.succ_lt_succ hi)
  exact halong (fun s hs => h.names s (List.mem_append_left _ hs)) h.directories

/-- **Creating directories only adds directories**, also when one cannot be created. -/
theorem grown_of_create (h : t.createDirectoriesFrom dir segments = .ok u ∨
    t.createDirectoriesFrom dir segments = .error u) : t.Grown u := by
  fun_induction t.createDirectoriesFrom dir segments with
  | case1 t dir =>
      rcases h with h | h <;> cases h
      exact Grown.refl _
  | case2 t dir segment rest hidle ih => exact ih h
  | case3 t dir rest hidle ih => exact ih h
  | case4 t dir segment rest hidle hup place hfind hfits ih =>
      exact (grown_put (by simp [place]) hfind).trans (ih h)
  | case6 t dir segment rest hidle hup place hfind ih => exact ih h
  | case8 t dir segment rest hidle hup place target hfind other hlocate ih => exact ih h
  | case5 t | case7 t | case9 t =>
      -- here it stops, with the tree as it is
      rcases h with h | h <;> cases h
      exact Grown.refl _

/-- **After they have been created, the directories are there.** -/
theorem directoriesAlong_of_create (h : t.createDirectoriesFrom dir segments = .ok u) :
    u.DirectoriesAlong dir segments := by
  fun_induction t.createDirectoriesFrom dir segments with
  | case1 t dir => exact .nil dir
  | case2 t dir segment rest hidle ih => exact .idle hidle (ih h)
  | case3 t dir rest hidle ih => exact .up (ih h)
  | case4 t dir segment rest hidle hup place hfind hfits ih =>
      refine .directory hidle hup ((grown_of_create (Or.inl h)).find?_of_some ?_) (ih h)
      rw [find?_put (by simp [place]), if_pos rfl]
  | case6 t dir segment rest hidle hup place hfind ih =>
      exact .directory hidle hup ((grown_of_create (Or.inl h)).find?_of_some hfind) (ih h)
  | case8 t dir segment rest hidle hup place target hfind other hlocate ih =>
      have hgrown := grown_of_create (Or.inl h)
      exact .link hidle hup (hgrown.find?_of_some hfind) (hgrown.locate hlocate) (ih h)
  | case5 | case7 | case9 => cases h

/-! ## The directories of a path -/

variable {p : Path}

theorem createDirectories_eq_ok_iff :
    t.createDirectories p = .ok u ↔ t.createDirectoriesFrom (t.startOf p) p.segments = .ok u := by
  rw [createDirectories]
  cases t.createDirectoriesFrom (t.startOf p) p.segments <;> simp

/-- **What has been created before a failure is left**, and nothing else has changed. -/
theorem grown_of_createDirectories_error (h : t.createDirectories p = .error u) :
    t.Grown u := by
  rw [createDirectories] at h
  split at h
  · cases h
  · rename_i partway hfrom
    rw [← Except.error.inj h]
    split
    · exact Grown.refl t
    · exact grown_of_create (Or.inr hfrom)

end Tree
end ResourceStubs
