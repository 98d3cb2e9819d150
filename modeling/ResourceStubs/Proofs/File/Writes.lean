import ResourceStubs.Proofs.File.Directories
import ResourceStubs.Proofs.List.ExceptSteps

/-!
# What writing source files does to a tree

A source file is written at the place that its path leads to, once the directories on the
way have been made.

* `write_spec`: afterwards its path leads to a file with its text.  Every other path that
  led to a file leads there still, and finds what it found unless the two places are one.
* `grown_of_write_eq_error`: a write that fails has made directories at most.
* `exists_readText?_of_writeAll`: when several files have been written, at the end of the
  path of each there is the text of one of them.
* `readText?_of_writeAll`: a file that none of them was written over reads as before.
-/

namespace ResourceStubs
namespace Tree

variable {t u : Tree}

/-! ## One text -/

/-- Does the path lead to a file at this place, whatever the file holds? -/
def HasFile (t : Tree) (p : Path) (place : Place) : Prop :=
  ∃ content, t.target? p = some (.found place (.file content))

theorem HasFile.fileAt? {p : Path} {place : Place} (h : t.HasFile p place) :
    t.fileAt? p = some place :=
  fileAt?_eq_some_iff.2 (Or.inr h)

theorem HasFile.find? {p : Path} {place : Place} (h : t.HasFile p place) :
    ∃ content, t.find? place = some (.file content) := by
  obtain ⟨content, h⟩ := h
  exact ⟨content, find?_of_target? h⟩

theorem HasFile.readText?_eq_some_iff {p : Path} {place : Place} (h : t.HasFile p place)
    {s : String} : t.readText? p = some s ↔ t.find? place = some (.file (.text s)) := by
  rw [Tree.readText?_eq_some_iff, h.fileAt?]
  constructor
  · rintro ⟨other, hother, hfind⟩
    rwa [Option.some.inj hother]
  · exact fun hfind => ⟨place, rfl, hfind⟩

theorem exists_hasFile {p : Path} {s : String} (h : t.readText? p = some s) :
    ∃ place, t.HasFile p place ∧ t.find? place = some (.file (.text s)) := by
  rw [Tree.readText?] at h
  split at h
  · rename_i place s' htarget
    obtain rfl := Option.some.inj h
    have hfile : t.HasFile p place := ⟨_, htarget⟩
    refine ⟨place, hfile, hfile.readText?_eq_some_iff.1 ?_⟩
    rw [Tree.readText?, htarget]
  · exact absurd h (by simp)

theorem HasFile.grown (htu : t.Grown u) {p : Path} {place : Place} (h : t.HasFile p place) :
    u.HasFile p place := by
  obtain ⟨content, h⟩ := h
  exact ⟨content, htu.target? h⟩

theorem HasFile.put {p : Path} {place other : Place} (h : t.HasFile p place)
    (hother : t.MayHold other) (content : Content) :
    (t.put other (.file content)).HasFile p place := by
  obtain ⟨old, h⟩ := h
  by_cases hplace : place = other
  · refine ⟨content, ?_⟩
    rw [target?_put hother, h, Option.map_some, Target.overwrite, if_pos hplace, hplace]
  · refine ⟨old, ?_⟩
    rw [target?_put hother, h, Option.map_some, Target.overwrite, if_neg hplace]

/-- Can a text be written at the end of the path, and is this its place? -/
def Writable (t : Tree) (p : Path) (place : Place) : Prop :=
  t.fileAt? p = some place ∧ (t.find? place = none → place.getLast?.any nameFits = true)

theorem Writable.mayHold {p : Path} {place : Place} (h : t.Writable p place) :
    t.MayHold place :=
  mayHold_of_fileAt? h.1

theorem writeText_of_fileAt?_eq_none {p : Path} (h : t.fileAt? p = none) (s : String) :
    t.writeText p s = none := by
  rw [writeText]
  split
  · rename_i place content htarget
    rw [fileAt?_eq_some_iff.2 (Or.inr ⟨_, htarget⟩)] at h
    exact absurd h (by simp)
  · rename_i place htarget
    rw [fileAt?_eq_some_iff.2 (Or.inl htarget)] at h
    exact absurd h (by simp)
  · rfl

/-- **A write puts the text at the place of the path.** -/
theorem writeText_eq_some_iff {p : Path} {s : String} :
    t.writeText p s = some u ↔
      ∃ place, t.Writable p place ∧ u = t.put place (.file (.text s)) := by
  cases hat : t.fileAt? p with
  | none =>
      rw [writeText_of_fileAt?_eq_none hat]
      refine ⟨fun h => absurd h (by simp), ?_⟩
      rintro ⟨place, ⟨hplace, -⟩, -⟩
      rw [hat] at hplace
      exact absurd hplace (by simp)
  | some other =>
      have hplace : (∃ place, t.Writable p place ∧ u = t.put place (.file (.text s))) ↔
          t.Writable p other ∧ u = t.put other (.file (.text s)) := by
        constructor
        · rintro ⟨place, hplace, hu⟩
          obtain rfl : other = place := Option.some.inj (hat.symm.trans hplace.1)
          exact ⟨hplace, hu⟩
        · exact fun h => ⟨other, h⟩
      rw [hplace, writeText]
      rcases fileAt?_eq_some_iff.1 hat with htarget | ⟨content, htarget⟩
      · rw [htarget]
        dsimp only
        have hnone := find?_of_vacant (locate_of_target? htarget)
        constructor
        · intro h
          split at h
          · rename_i hfits
            exact ⟨⟨hat, fun _ => hfits⟩, (Option.some.inj h).symm⟩
          · exact absurd h (by simp)
        · rintro ⟨⟨-, hfits⟩, rfl⟩
          rw [if_pos (hfits hnone)]
      · rw [htarget]
        have hfind := find?_of_target? htarget
        constructor
        · intro h
          refine ⟨⟨hat, fun hnone => ?_⟩, (Option.some.inj h).symm⟩
          rw [hfind] at hnone
          exact absurd hnone (by simp)
        · rintro ⟨-, rfl⟩
          rfl

/-- A written path leads to a file. -/
theorem Writable.hasFile_put {p : Path} {place : Place} (h : t.Writable p place)
    (content : Content) : (t.put place (.file content)).HasFile p place := by
  refine ⟨content, ?_⟩
  rw [target?_put h.mayHold]
  rcases fileAt?_eq_some_iff.1 h.1 with htarget | ⟨old, htarget⟩
  · rw [htarget, Option.map_some, Target.overwrite, if_pos rfl]
  · rw [htarget, Option.map_some, Target.overwrite, if_pos rfl]

/-- Writing somewhere changes nothing about what can be written elsewhere. -/
theorem Writable.put_iff {p q : Path} {place other : Place} (hq : t.Writable q other)
    (content : Content) :
    (t.put other (.file content)).Writable p place ↔ t.Writable p place := by
  rw [Writable, Writable, fileAt?_put hq.mayHold, find?_put hq.mayHold.ne_nil]
  refine and_congr_right fun _ => ?_
  by_cases hplace : place = other
  · rw [if_pos hplace, hplace]
    exact ⟨fun _ => hq.2, fun _ h => absurd h (by simp)⟩
  · rw [if_neg hplace]

/-- The same is at every place, and relative paths start from the same directory. -/
structure SameFiles (t u : Tree) : Prop where
  workingDirectory : t.workingDirectory = u.workingDirectory
  find? : ∀ place, t.find? place = u.find? place

end Tree

namespace Java
namespace CompilationUnit

open ResourceStubs.Tree

variable {t t' m : Tree} {dir : Path} {u : CompilationUnit} {us : List CompilationUnit}

/-! ## One source file -/

/-- The path of a source file does not depend on what is in it. -/
theorem pathBelow_congr {v : CompilationUnit} (hpackage : u.package = v.package)
    (hname : u.typeName = v.typeName) (dir : Path) : u.pathBelow dir = v.pathBelow dir := by
  rw [pathBelow, pathBelow, relativePath, relativePath, packageSegments, packageSegments, hpackage,
    hname]

/-- The directory that the source file stands in. -/
def directoryBelow (u : CompilationUnit) (dir : Path) : Path :=
  (u.pathBelow dir).parent?.getD ⟨""⟩

theorem write_eq_ok_iff :
    u.write dir t = (.ok (), t') ↔
      ∃ m, t.createDirectories (u.directoryBelow dir) = .ok m ∧
        m.writeText (u.pathBelow dir) u.source = some t' := by
  unfold write directoryBelow
  dsimp only
  cases t.createDirectories ((u.pathBelow dir).parent?.getD ⟨""⟩) with
  | error m =>
      dsimp only
      constructor
      · intro h
        exact absurd h error_ne_ok
      · rintro ⟨m, h, -⟩
        exact absurd h (by simp)
  | ok m =>
      dsimp only
      cases hw : m.writeText (u.pathBelow dir) u.source with
      | none =>
          dsimp only
          constructor
          · intro h
            exact absurd h error_ne_ok
          · rintro ⟨m', h, h'⟩
            rw [← Except.ok.inj h, hw] at h'
            exact absurd h' (by simp)
      | some t₁ =>
          dsimp only
          constructor
          · intro h
            exact ⟨m, rfl, by rw [hw, (Prod.mk.inj h).2]⟩
          · rintro ⟨m', h, h'⟩
            rw [← Except.ok.inj h, hw] at h'
            rw [Option.some.inj h']

/-- **What one write does.**  The path leads to a file with the text.  A path that led to a
file leads there still, and only the file at the place of the path is another. -/
theorem write_spec (h : u.write dir t = (.ok (), t')) :
    ∃ place, t'.HasFile (u.pathBelow dir) place ∧
      t'.find? place = some (.file (.text u.source)) ∧
      ∀ p other, t.HasFile p other → t'.HasFile p other ∧
        (other ≠ place → t'.find? other = t.find? other) := by
  obtain ⟨m, hm, hw⟩ := write_eq_ok_iff.1 h
  obtain ⟨place, hwritable, rfl⟩ := writeText_eq_some_iff.1 hw
  have hgrown : t.Grown m := grown_of_create (Or.inl (createDirectories_eq_ok_iff.1 hm))
  have hfind := find?_put (t := m) hwritable.mayHold.ne_nil
  refine ⟨place, hwritable.hasFile_put _, by rw [hfind, if_pos rfl], fun p other hp => ?_⟩
  refine ⟨(hp.grown hgrown).put hwritable.mayHold _, fun hne => ?_⟩
  obtain ⟨content, hcontent⟩ := hp.find?
  rw [hfind, if_neg hne, hgrown.find?_of_some hcontent, hcontent]

/-- **A write that fails has made directories at most.**  The file is not there, unless it
was there before. -/
theorem grown_of_write_eq_error {e : Failure} (h : u.write dir t = (.error e, t')) :
    t.Grown t' := by
  unfold write at h
  dsimp only at h
  split at h
  · rename_i m hm
    rw [← (Prod.mk.inj h).2]
    exact grown_of_createDirectories_error hm
  · rename_i m hm
    split at h
    · rw [← (Prod.mk.inj h).2]
      exact grown_of_create (Or.inl (createDirectories_eq_ok_iff.1 hm))
    · exact absurd (Prod.mk.inj h).1 (by simp)

/-! ## Several source files -/

section

-- otherwise the check of the equation looks into the write and does not come back
attribute [local irreducible] write

theorem writeAll_cons (dir : Path) (u : CompilationUnit) (us : List CompilationUnit) (t : Tree) :
    writeAll dir (u :: us) t =
      match u.write dir t with
      | (.ok (), t) => writeAll dir us t
      | (.error e, t) => (.error e, t) := rfl

end

theorem writeAll_singleton (dir : Path) (u : CompilationUnit) (t : Tree) :
    writeAll dir [u] t = u.write dir t := by
  rw [writeAll_cons]
  obtain ⟨result, t₁⟩ := u.write dir t
  cases result with
  | error e => rfl
  | ok _ => rfl

theorem writeAll_cons_eq_ok_iff :
    writeAll dir (u :: us) t = (.ok (), t') ↔
      ∃ t₁, u.write dir t = (.ok (), t₁) ∧ writeAll dir us t₁ = (.ok (), t') := by
  rw [writeAll_cons]
  obtain ⟨result, t₁⟩ := u.write dir t
  cases result with
  | error e =>
      dsimp only
      constructor
      · intro h
        exact absurd h error_ne_ok
      · rintro ⟨t₂, h, -⟩
        exact absurd h error_ne_ok
  | ok _ =>
      constructor
      · exact fun h => ⟨t₁, rfl, h⟩
      · rintro ⟨t₂, h, h'⟩
        rw [(Prod.mk.inj h).2]
        exact h'

theorem hasFile_of_writeAll (h : writeAll dir us t = (.ok (), t')) {p : Path} {place : Place}
    (hp : t.HasFile p place) : t'.HasFile p place := by
  induction us generalizing t with
  | nil =>
      have ht : t = t' := congrArg Prod.snd h
      rwa [← ht]
  | cons u us ih =>
      obtain ⟨t₁, hu, h⟩ := writeAll_cons_eq_ok_iff.1 h
      obtain ⟨_, -, -, hkeep⟩ := write_spec hu
      exact ih h (hkeep p place hp).1

/-- A text that is there stays, or one that is written takes its place. -/
theorem readText?_or_of_writeAll (h : writeAll dir us t = (.ok (), t')) {p : Path} {s : String}
    (hp : t.readText? p = some s) :
    t'.readText? p = some s ∨ ∃ u ∈ us, t'.readText? p = some u.source := by
  induction us generalizing t s with
  | nil =>
      have ht : t = t' := congrArg Prod.snd h
      rw [← ht]
      exact Or.inl hp
  | cons u us ih =>
      obtain ⟨t₁, hu, h⟩ := writeAll_cons_eq_ok_iff.1 h
      obtain ⟨place, -, htext, hkeep⟩ := write_spec hu
      obtain ⟨other, hfile, hother⟩ := exists_hasFile hp
      obtain ⟨hfile₁, hsame⟩ := hkeep p other hfile
      by_cases hne : other = place
      · have hp₁ : t₁.readText? p = some u.source := by
          rw [hfile₁.readText?_eq_some_iff, hne, htext]
        rcases ih h hp₁ with hs | ⟨v, hv, hs⟩
        · exact Or.inr ⟨u, List.mem_cons_self, hs⟩
        · exact Or.inr ⟨v, List.mem_cons_of_mem _ hv, hs⟩
      · have hp₁ : t₁.readText? p = some s := by
          rw [hfile₁.readText?_eq_some_iff, hsame hne, hother]
        rcases ih h hp₁ with hs | ⟨v, hv, hs⟩
        · exact Or.inl hs
        · exact Or.inr ⟨v, List.mem_cons_of_mem _ hv, hs⟩

/-- **At the end of every path that is written there is a text that is written.** -/
theorem exists_readText?_of_writeAll (h : writeAll dir us t = (.ok (), t')) :
    ∀ u ∈ us, ∃ v ∈ us, t'.readText? (u.pathBelow dir) = some v.source := by
  induction us generalizing t with
  | nil => exact fun u hu => absurd hu List.not_mem_nil
  | cons x us ih =>
      obtain ⟨t₁, hx, h₁⟩ := writeAll_cons_eq_ok_iff.1 h
      refine List.forall_mem_cons.2 ⟨?_, fun u hu => ?_⟩
      · obtain ⟨place, hfile, htext, -⟩ := write_spec hx
        rcases readText?_or_of_writeAll h₁ (hfile.readText?_eq_some_iff.2 htext) with hs | hs
        · exact ⟨x, List.mem_cons_self, hs⟩
        · obtain ⟨v, hv, hs⟩ := hs
          exact ⟨v, List.mem_cons_of_mem _ hv, hs⟩
      · obtain ⟨v, hv, hs⟩ := ih h₁ u hu
        exact ⟨v, List.mem_cons_of_mem _ hv, hs⟩

/-- **A file that is written over by none reads as before.** -/
theorem readText?_of_writeAll (h : writeAll dir us t = (.ok (), t')) {p : Path} {s : String}
    (hp : t.readText? p = some s) (hapart : ∀ u ∈ us, t'.fileAt? (u.pathBelow dir) ≠ t'.fileAt? p) :
    t'.readText? p = some s := by
  induction us generalizing t with
  | nil =>
      have ht : t = t' := congrArg Prod.snd h
      rwa [← ht]
  | cons u us ih =>
      obtain ⟨t₁, hu, h⟩ := writeAll_cons_eq_ok_iff.1 h
      obtain ⟨place, hfile, -, hkeep⟩ := write_spec hu
      obtain ⟨other, hpfile, hother⟩ := exists_hasFile hp
      obtain ⟨hpfile₁, hsame⟩ := hkeep p other hpfile
      have hne : other ≠ place := by
        rintro rfl
        refine hapart u List.mem_cons_self ?_
        rw [(hasFile_of_writeAll h hfile).fileAt?, (hasFile_of_writeAll h hpfile₁).fileAt?]
      refine ih h ?_ fun v hv => hapart v (List.mem_cons_of_mem _ hv)
      rw [hpfile₁.readText?_eq_some_iff, hsame hne, hother]

/-- **Of the texts that are written at one place the last one stays.** -/
theorem readText?_eq_getLast? (h : writeAll dir us t = (.ok (), t')) {p : Path}
    (hp : ∃ u ∈ us, t'.fileAt? (u.pathBelow dir) = t'.fileAt? p) :
    t'.readText? p =
      (us.filter fun u => t'.fileAt? (u.pathBelow dir) = t'.fileAt? p).getLast?.map source := by
  induction us generalizing t with
  | nil =>
      obtain ⟨u, hu, -⟩ := hp
      exact absurd hu List.not_mem_nil
  | cons u us ih =>
      obtain ⟨t₁, hu, h₁⟩ := writeAll_cons_eq_ok_iff.1 h
      by_cases hlater : ∃ v ∈ us, t'.fileAt? (v.pathBelow dir) = t'.fileAt? p
      · -- a later one is written over it
        have hlast : ((u :: us).filter fun v =>
              t'.fileAt? (v.pathBelow dir) = t'.fileAt? p).getLast? =
            (us.filter fun v => t'.fileAt? (v.pathBelow dir) = t'.fileAt? p).getLast? := by
          obtain ⟨v, hv, hplace⟩ := hlater
          have hne : (us.filter fun v => t'.fileAt? (v.pathBelow dir) = t'.fileAt? p) ≠ [] :=
            List.ne_nil_of_mem (List.mem_filter.2 ⟨hv, by simpa using hplace⟩)
          rw [List.filter_cons]
          split
          · rw [List.getLast?_cons_of_ne_nil hne]
          · rfl
        rw [hlast]
        exact ih h₁ hlater
      · have hnone : ∀ v ∈ us, t'.fileAt? (v.pathBelow dir) ≠ t'.fileAt? p :=
          fun v hv hplace => hlater ⟨v, hv, hplace⟩
        obtain ⟨x, hx, hplace⟩ := hp
        obtain rfl : x = u := by
          rcases List.mem_cons.1 hx with hx | hx
          · exact hx
          · exact absurd hplace (hnone x hx)
        obtain ⟨place, hfile, htext, -⟩ := write_spec hu
        have hread : t'.readText? (x.pathBelow dir) = some x.source := by
          refine readText?_of_writeAll h₁ (hfile.readText?_eq_some_iff.2 htext) fun v hv => ?_
          rw [hplace]
          exact hnone v hv
        have hfilter : (us.filter fun v => t'.fileAt? (v.pathBelow dir) = t'.fileAt? p) = [] :=
          List.filter_eq_nil_iff.2 fun v hv => by simpa using hnone v hv
        rw [List.filter_cons_of_pos (by simpa using hplace), hfilter]
        rw [Tree.readText?_eq_some_iff, hplace] at hread
        exact Tree.readText?_eq_some_iff.2 hread

end CompilationUnit
end Java
end ResourceStubs
