import ResourceStubs.Proofs.File.Writes

/-!
# Source files in one directory may be written in any order

Once their directory is there, writing a source file is putting its text at the place of
its path, and no such put changes the place of another path.  So what a run of writes
leaves at a place is the text of one of the files that are written there, or what was
there (`find?_of_writeAll`); and whether the run succeeds is a question about each path
by itself (`exists_writeAll`).  Neither depends on the order, if the files that share a
place have one text.

The directory is made by whichever write comes first, and by the others again without
effect (`writeAll_of_create`).
-/

namespace ResourceStubs

namespace Tree

variable {t m : Tree} {p : Path}

/-- Are the directory at the end of the path and those on the way to it there? -/
def Created (t : Tree) (p : Path) : Prop :=
  t.DirectoriesAlong (t.startOf p) p.segments

theorem created_of_create (h : t.createDirectories p = .ok m) : m.Created p := by
  rw [createDirectories_eq_ok_iff] at h
  have halong := directoriesAlong_of_create h
  rwa [Created, startOf, (grown_of_create (Or.inl h)).workingDirectory]

theorem Created.create_eq_self (h : t.Created p) : t.createDirectories p = .ok t :=
  createDirectories_eq_ok_iff.2 (DirectoriesAlong.create_eq_self h)

theorem Created.put (h : t.Created p) {place : Place} (hplace : t.MayHold place)
    (content : Content) : (t.put place (.file content)).Created p :=
  DirectoriesAlong.put h hplace content

/-- What does not change when files are put: where the paths lead, which directories are
there, and what can be written. -/
structure SameShape (t t' : Tree) : Prop where
  workingDirectory : t'.workingDirectory = t.workingDirectory
  fileAt? : ∀ p, t'.fileAt? p = t.fileAt? p
  created : ∀ p, t.Created p → t'.Created p
  writable : ∀ p place, t'.Writable p place ↔ t.Writable p place

theorem SameShape.refl (t : Tree) : t.SameShape t :=
  ⟨rfl, fun _ => rfl, fun _ h => h, fun _ _ => Iff.rfl⟩

theorem SameShape.trans {t t' t'' : Tree} (h : t.SameShape t') (h' : t'.SameShape t'') :
    t.SameShape t'' where
  workingDirectory := h'.workingDirectory.trans h.workingDirectory
  fileAt? p := (h'.fileAt? p).trans (h.fileAt? p)
  created p hp := h'.created p (h.created p hp)
  writable p place := (h'.writable p place).trans (h.writable p place)

theorem Writable.sameShape_put {place : Place} (h : t.Writable p place) (content : Content) :
    t.SameShape (t.put place (.file content)) where
  workingDirectory := rfl
  fileAt? p' := fileAt?_put h.mayHold content p'
  created _ hq := hq.put h.mayHold content
  writable _ _ := h.put_iff content

end Tree

namespace Java
namespace CompilationUnit

open ResourceStubs.Tree

variable {t t' m : Tree} {dir : Path} {u : CompilationUnit} {us vs : List CompilationUnit}

/-- In a directory that is there, a write is a put. -/
theorem write_of_created (h : t.Created (u.directoryBelow dir)) :
    u.write dir t = (.ok (), t') ↔ ∃ place, t.Writable (u.pathBelow dir) place ∧
      t' = t.put place (.file (.text u.source)) := by
  rw [write_eq_ok_iff, h.create_eq_self, ← writeText_eq_some_iff]
  constructor
  · rintro ⟨m, hm, hw⟩
    rwa [Except.ok.inj hm]
  · exact fun hw => ⟨t, rfl, hw⟩

/-- Every path can be written, whatever comes before it. -/
theorem writable_of_writeAll (hcreated : ∀ u ∈ us, t.Created (u.directoryBelow dir))
    (h : writeAll dir us t = (.ok (), t')) :
    ∀ u ∈ us, ∃ place, t.Writable (u.pathBelow dir) place := by
  induction us generalizing t with
  | nil => exact fun u hu => absurd hu List.not_mem_nil
  | cons x us ih =>
      obtain ⟨hx, hus⟩ := List.forall_mem_cons.1 hcreated
      obtain ⟨t₁, hw, h₁⟩ := writeAll_cons_eq_ok_iff.1 h
      obtain ⟨place, hplace, rfl⟩ := (write_of_created hx).1 hw
      refine List.forall_mem_cons.2 ⟨⟨place, hplace⟩, fun u hu => ?_⟩
      obtain ⟨other, hother⟩ := ih (fun v hv => (hus v hv).put hplace.mayHold _) h₁ u hu
      exact ⟨other, (hplace.put_iff _).1 hother⟩

/-- **If each path can be written by itself, all can be written.** -/
theorem exists_writeAll (hcreated : ∀ u ∈ us, t.Created (u.directoryBelow dir))
    (h : ∀ u ∈ us, ∃ place, t.Writable (u.pathBelow dir) place) :
    ∃ t', writeAll dir us t = (.ok (), t') := by
  induction us generalizing t with
  | nil => exact ⟨t, rfl⟩
  | cons x us ih =>
      obtain ⟨hx, hus⟩ := List.forall_mem_cons.1 hcreated
      obtain ⟨⟨place, hplace⟩, hrest⟩ := List.forall_mem_cons.1 h
      obtain ⟨t', ht'⟩ := ih (fun v hv => (hus v hv).put hplace.mayHold (.text x.source))
        fun v hv => by
          obtain ⟨other, hother⟩ := hrest v hv
          exact ⟨other, (hplace.put_iff _).2 hother⟩
      exact ⟨t', writeAll_cons_eq_ok_iff.2 ⟨_, (write_of_created hx).2 ⟨place, hplace, rfl⟩, ht'⟩⟩

/-- A run of writes in directories that are there keeps the shape of the tree. -/
theorem sameShape_of_writeAll (hcreated : ∀ u ∈ us, t.Created (u.directoryBelow dir))
    (h : writeAll dir us t = (.ok (), t')) : t.SameShape t' := by
  induction us generalizing t with
  | nil =>
      have ht : t = t' := congrArg Prod.snd h
      rw [ht]
      exact SameShape.refl t'
  | cons x us ih =>
      obtain ⟨hx, hus⟩ := List.forall_mem_cons.1 hcreated
      obtain ⟨t₁, hw, h₁⟩ := writeAll_cons_eq_ok_iff.1 h
      obtain ⟨place, hplace, rfl⟩ := (write_of_created hx).1 hw
      exact (hplace.sameShape_put _).trans
        (ih (fun v hv => (hus v hv).put hplace.mayHold _) h₁)

/-- **What a run of writes leaves at a place.**  Nobody writes there and it is what it was,
or somebody does and it is the text of one of them. -/
theorem find?_of_writeAll (hcreated : ∀ u ∈ us, t.Created (u.directoryBelow dir))
    (h : writeAll dir us t = (.ok (), t')) (place : Place) :
    (∀ u ∈ us, t.fileAt? (u.pathBelow dir) ≠ some place) ∧ t'.find? place = t.find? place ∨
      ∃ u ∈ us, t.fileAt? (u.pathBelow dir) = some place ∧
        t'.find? place = some (.file (.text u.source)) := by
  induction us generalizing t with
  | nil =>
      have ht : t = t' := congrArg Prod.snd h
      rw [ht]
      exact Or.inl ⟨fun u hu => absurd hu List.not_mem_nil, rfl⟩
  | cons x us ih =>
      obtain ⟨hx, hus⟩ := List.forall_mem_cons.1 hcreated
      obtain ⟨t₁, hw, h₁⟩ := writeAll_cons_eq_ok_iff.1 h
      obtain ⟨other, hother, rfl⟩ := (write_of_created hx).1 hw
      have hat := fileAt?_put hother.mayHold (.text x.source)
      rcases ih (fun v hv => (hus v hv).put hother.mayHold _) h₁ with ⟨hnone, hfind⟩ | hsome
      · rw [find?_put hother.mayHold.ne_nil] at hfind
        by_cases hplace : place = other
        · rw [if_pos hplace] at hfind
          exact Or.inr ⟨x, List.mem_cons_self, by rw [hplace, hother.1], hfind⟩
        · rw [if_neg hplace] at hfind
          refine Or.inl ⟨List.forall_mem_cons.2 ⟨?_, fun u hu => ?_⟩, hfind⟩
          · rw [hother.1, Ne, Option.some.injEq]
            exact Ne.symm hplace
          · rw [← hat]
            exact hnone u hu
      · obtain ⟨u, hu, hplace, hfind⟩ := hsome
        rw [hat] at hplace
        exact Or.inr ⟨u, List.mem_cons_of_mem _ hu, hplace, hfind⟩

/-- The first write makes the directory. -/
theorem writeAll_of_create (hm : t.createDirectories (u.directoryBelow dir) = .ok m) :
    writeAll dir (u :: us) t = (.ok (), t') ↔ writeAll dir (u :: us) m = (.ok (), t') := by
  have hself := (created_of_create hm).create_eq_self
  have hwrite : ∀ t₁, u.write dir t = (.ok (), t₁) ↔ u.write dir m = (.ok (), t₁) := by
    intro t₁
    rw [write_eq_ok_iff, write_eq_ok_iff, hm, hself]
  rw [writeAll_cons_eq_ok_iff, writeAll_cons_eq_ok_iff]
  exact exists_congr fun t₁ => and_congr_left fun _ => hwrite t₁

/-- **Files in one directory may be written in any order**, if those that share a place
after the run have one text. -/
theorem sameFiles_of_perm (hperm : us.Perm vs)
    (hdir : ∀ u ∈ us, ∀ v ∈ us, u.directoryBelow dir = v.directoryBelow dir)
    (h : writeAll dir us t = (.ok (), t'))
    (hsame : ∀ u ∈ us, ∀ v ∈ us,
      t'.fileAt? (u.pathBelow dir) = t'.fileAt? (v.pathBelow dir) → u.source = v.source) :
    ∃ t'', writeAll dir vs t = (.ok (), t'') ∧ t'.SameFiles t'' := by
  cases us with
  | nil =>
      rw [List.nil_perm.1 hperm]
      exact ⟨t', h, rfl, fun place => rfl⟩
  | cons u us =>
      cases vs with
      | nil => exact absurd (List.perm_nil.1 hperm) (by simp)
      | cons v vs =>
          have hv : v ∈ u :: us := hperm.mem_iff.2 List.mem_cons_self
          obtain ⟨t₁, hu, -⟩ := writeAll_cons_eq_ok_iff.1 h
          obtain ⟨m, hm, -⟩ := write_eq_ok_iff.1 hu
          have hm' : t.createDirectories (v.directoryBelow dir) = .ok m := by
            rw [← hdir u List.mem_cons_self v hv, hm]
          have hcreated : ∀ x ∈ u :: us, m.Created (x.directoryBelow dir) := by
            intro x hx
            rw [← hdir u List.mem_cons_self x hx]
            exact created_of_create hm
          have hcreated' : ∀ x ∈ v :: vs, m.Created (x.directoryBelow dir) := fun x hx =>
            hcreated x (hperm.mem_iff.2 hx)
          have hrun := (writeAll_of_create hm).1 h
          have hwritable := writable_of_writeAll hcreated hrun
          obtain ⟨t'', hrun'⟩ := exists_writeAll hcreated' fun x hx =>
            hwritable x (hperm.mem_iff.2 hx)
          have hshape := sameShape_of_writeAll hcreated hrun
          have hshape' := sameShape_of_writeAll hcreated' hrun'
          refine ⟨t'', (writeAll_of_create hm').2 hrun',
            hshape.workingDirectory.trans hshape'.workingDirectory.symm, fun place => ?_⟩
          rcases find?_of_writeAll hcreated hrun place with ⟨hnone, hfind⟩ | ⟨x, hx, hpx, hfind⟩
          · rcases find?_of_writeAll hcreated' hrun' place with ⟨-, hfind'⟩ | ⟨y, hy, hpy, -⟩
            · rw [hfind, hfind']
            · exact absurd hpy (hnone y (hperm.mem_iff.2 hy))
          · rcases find?_of_writeAll hcreated' hrun' place with ⟨hnone, -⟩ | ⟨y, hy, hpy, hfind'⟩
            · exact absurd hpx (hnone x (hperm.mem_iff.1 hx))
            · have hplaces : t'.fileAt? (x.pathBelow dir) = t'.fileAt? (y.pathBelow dir) := by
                rw [hshape.fileAt?, hshape.fileAt?, hpx, hpy]
              rw [hfind, hfind', hsame x hx y (hperm.mem_iff.2 hy) hplaces]

end CompilationUnit
end Java
end ResourceStubs
