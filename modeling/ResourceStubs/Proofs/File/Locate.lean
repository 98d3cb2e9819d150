import ResourceStubs.File.Access
import ResourceStubs.Proofs.File.Components

/-!
# What a path leads to, before and after a write

A path is followed step by step, and a step looks at one place.  Hence a path notices a
change at a place only if it steps on that place.

* `locate_put`: after a file has been put at a place that a file may be put at, a path
  that led there finds that file, and every other path leads where it led.
* `fileAt?` is the place of the file that a path names, or would name if it were written.
  `readText?_eq_some_iff` says that reading is looking at that place, and
  `fileAt?_put` that no file which is put anywhere changes it.
* `readText?_eq_of_components`: two paths with the same components, if both can be read,
  are read alike.  Idle segments matter only behind a file, where they forbid reading.
-/

namespace ResourceStubs
namespace Tree

variable {t u v : Tree}

/-! ## One step -/

theorem locate_nil (t : Tree) (links : Nat) (dir : Place) :
    t.locate links dir [] = some (.found dir .directory) := by
  rw [locate]

theorem locate_cons_of_isIdle {segment : String} (h : Path.isIdle segment = true) (links : Nat)
    (dir : Place) (rest : List String) :
    t.locate links dir (segment :: rest) = t.locate links dir rest := by
  rw [locate, if_pos h]

theorem locate_up (t : Tree) (links : Nat) (dir : Place) (rest : List String) :
    t.locate links dir (".." :: rest) = t.locate links dir.dropLast rest := by
  rw [locate, if_neg (by decide), if_pos rfl]

section Step

variable {segment : String} (hidle : ¬Path.isIdle segment = true) (hup : ¬segment = "..")
  {links : Nat} {dir : Place} {rest : List String}
include hidle hup

theorem locate_of_absent (h : t.find? (dir ++ [segment]) = none) :
    t.locate links dir (segment :: rest) =
      if rest.isEmpty then some (.vacant (dir ++ [segment])) else none := by
  rw [locate, if_neg hidle, if_neg hup]
  simp only [h]

theorem locate_of_directory (h : t.find? (dir ++ [segment]) = some .directory) :
    t.locate links dir (segment :: rest) = t.locate links (dir ++ [segment]) rest := by
  rw [locate, if_neg hidle, if_neg hup]
  simp only [h]

theorem locate_of_file {content : Content}
    (h : t.find? (dir ++ [segment]) = some (.file content)) :
    t.locate links dir (segment :: rest) =
      if rest.isEmpty then some (.found (dir ++ [segment]) (.file content)) else none := by
  rw [locate, if_neg hidle, if_neg hup]
  simp only [h]

theorem locate_of_link {target : Path}
    (h : t.find? (dir ++ [segment]) = some (.link target)) :
    t.locate links dir (segment :: rest) =
      match links with
      | 0 => none
      | links + 1 =>
          t.locate links (if target.isAbsolute then [] else dir) (target.segments ++ rest) := by
  rw [locate, if_neg hidle, if_neg hup]
  cases links with
  | zero => simp only [h]
  | succ links => simp only [h]

end Step

/-- What is found at the end of a path is a directory, or the file at the place. -/
theorem find?_of_locate {links : Nat} {dir place : Place} {segments : List String} {e : Entry}
    (h : t.locate links dir segments = some (.found place e)) :
    e = .directory ∨ ∃ content, e = .file content ∧ t.find? place = some (.file content) := by
  fun_induction t.locate links dir segments with
  | case1 => exact Or.inl (Target.found.inj (Option.some.inj h)).2.symm
  | case2 links dir segment rest hidle ih => exact ih h
  | case3 links dir rest hidle ih => exact ih h
  | case4 => exact absurd h (by simp)
  | case5 => exact absurd h (by simp)
  | case6 links dir segment rest hidle hup place hfind ih => exact ih h
  | case7 links dir segment rest hidle hup place content hfind =>
      obtain ⟨rfl, rfl⟩ := Target.found.inj (Option.some.inj h)
      exact Or.inr ⟨content, rfl, hfind⟩
  | case8 => exact absurd h (by simp)
  | case9 => exact absurd h (by simp)
  | case10 dir segment rest hidle hup place target hfind links ih => exact ih h

/-- Nothing is at a place that is vacant. -/
theorem find?_of_vacant {links : Nat} {dir place : Place} {segments : List String}
    (h : t.locate links dir segments = some (.vacant place)) : t.find? place = none := by
  fun_induction t.locate links dir segments with
  | case1 => exact absurd h (by simp)
  | case2 links dir segment rest hidle ih => exact ih h
  | case3 links dir rest hidle ih => exact ih h
  | case4 links dir segment rest hidle hup place hfind =>
      have hplace := Target.vacant.inj (Option.some.inj h)
      rw [← hplace]
      exact hfind
  | case5 => exact absurd h (by simp)
  | case6 links dir segment rest hidle hup place hfind ih => exact ih h
  | case7 => exact absurd h (by simp)
  | case8 => exact absurd h (by simp)
  | case9 => exact absurd h (by simp)
  | case10 dir segment rest hidle hup place target hfind links ih => exact ih h

/-! ## Putting a file -/

/-- May a file be put at the place?  There is a file, or nothing. -/
def MayHold (t : Tree) (place : Place) : Prop :=
  t.find? place = none ∨ ∃ content, t.find? place = some (.file content)

theorem MayHold.ne_nil {place : Place} (h : t.MayHold place) : place ≠ [] := by
  rintro rfl
  have hroot : t.find? [] = some .directory := rfl
  rcases h with h | ⟨content, h⟩
  · rw [hroot] at h
    exact absurd h (by simp)
  · rw [hroot] at h
    exact absurd h (by simp)

theorem MayHold.ne_of_find? {place other : Place} (h : t.MayHold place)
    (hother : t.find? other = some .directory ∨ ∃ target, t.find? other = some (.link target)) :
    other ≠ place := by
  rintro rfl
  rcases h with h | ⟨content, h⟩ <;> rw [h] at hother <;> simp at hother

/-- Putting a file leaves directories and links as they are. -/
theorem MayHold.find?_put {place other : Place} (h : t.MayHold place) (content : Content)
    (hother : t.find? other = some .directory ∨ ∃ target, t.find? other = some (.link target)) :
    (t.put place (.file content)).find? other = t.find? other := by
  rw [Tree.find?_put h.ne_nil, if_neg (h.ne_of_find? hother)]

/-- What a target becomes when a file is put at a place. -/
def Target.overwrite (place : Place) (content : Content) : Target → Target
  | .vacant other => if other = place then .found place (.file content) else .vacant other
  | .found other (.file old) =>
      if other = place then .found place (.file content) else .found other (.file old)
  | target => target

/-- **After a file has been put at a place**, a path that led there finds the file, and
every other path leads where it led. -/
theorem locate_put {place : Place} (h : t.MayHold place) (content : Content) (links : Nat)
    (dir : Place) (segments : List String) :
    (t.put place (.file content)).locate links dir segments =
      (t.locate links dir segments).map (Target.overwrite place content) := by
  have hthere : ∀ {other : Place}, other = place →
      (t.put place (.file content)).find? other = some (.file content) := by
    intro other hother
    rw [Tree.find?_put h.ne_nil, if_pos hother]
  have helsewhere : ∀ {other : Place}, ¬other = place →
      (t.put place (.file content)).find? other = t.find? other := by
    intro other hother
    rw [Tree.find?_put h.ne_nil, if_neg hother]
  fun_induction t.locate links dir segments with
  | case1 links dir =>
      rw [locate_nil]
      rfl
  | case2 links dir segment rest hidle ih => rw [locate_cons_of_isIdle hidle, ih]
  | case3 links dir rest hidle ih => rw [locate_up, ih]
  | case4 links dir segment rest hidle hup other hfind hrest =>
      rw [Option.map_some, Target.overwrite]
      by_cases hother : other = place
      · rw [locate_of_file hidle hup (hthere hother), if_pos hrest, if_pos hother, ← hother]
      · rw [locate_of_absent hidle hup ((helsewhere hother).trans hfind), if_pos hrest,
          if_neg hother]
  | case5 links dir segment rest hidle hup other hfind hrest =>
      rw [Option.map_none]
      by_cases hother : other = place
      · rw [locate_of_file hidle hup (hthere hother), if_neg hrest]
      · rw [locate_of_absent hidle hup ((helsewhere hother).trans hfind), if_neg hrest]
  | case6 links dir segment rest hidle hup other hfind ih =>
      rw [locate_of_directory hidle hup ((h.find?_put content (Or.inl hfind)).trans hfind), ih]
  | case7 links dir segment rest hidle hup other old hfind hrest =>
      rw [Option.map_some, Target.overwrite]
      by_cases hother : other = place
      · rw [locate_of_file hidle hup (hthere hother), if_pos hrest, if_pos hother, ← hother]
      · rw [locate_of_file hidle hup ((helsewhere hother).trans hfind), if_pos hrest,
          if_neg hother]
  | case8 links dir segment rest hidle hup other old hfind hrest =>
      rw [Option.map_none]
      by_cases hother : other = place
      · rw [locate_of_file hidle hup (hthere hother), if_neg hrest]
      · rw [locate_of_file hidle hup ((helsewhere hother).trans hfind), if_neg hrest]
  | case9 dir segment rest hidle hup other target hfind =>
      have hlink := h.find?_put content (Or.inr ⟨target, hfind⟩)
      rw [locate_of_link hidle hup (hlink.trans hfind), Option.map_none]
  | case10 dir segment rest hidle hup other target hfind links ih =>
      have hlink := h.find?_put content (Or.inr ⟨target, hfind⟩)
      rw [locate_of_link hidle hup (hlink.trans hfind)]
      exact ih

theorem target?_put {place : Place} (h : t.MayHold place) (content : Content) (p : Path) :
    (t.put place (.file content)).target? p =
      (t.target? p).map (Target.overwrite place content) := by
  rw [target?, target?]
  split
  · rfl
  · exact locate_put h content _ _ _

/-! ## Reading as looking at a place -/

/-- The place of the file that a target is, or that can be made there. -/
def Target.filePlace? : Target → Option Place
  | .vacant place => some place
  | .found place (.file _) => some place
  | .found _ .directory => none
  | .found _ (.link _) => none

/-- The place of the file that a path names, or would name. -/
def fileAt? (t : Tree) (p : Path) : Option Place :=
  (t.target? p).bind Target.filePlace?

theorem Target.filePlace?_overwrite (place : Place) (content : Content) (target : Target) :
    (target.overwrite place content).filePlace? = target.filePlace? := by
  cases target with
  | vacant other =>
      rw [overwrite]
      split
      · rename_i h
        rw [h]
        rfl
      · rfl
  | found other e =>
      cases e with
      | file old =>
          rw [overwrite]
          split
          · rename_i h
            rw [h]
            rfl
          · rfl
      | directory => rfl
      | link target => rfl

theorem locate_of_target? {p : Path} {target : Target} (h : t.target? p = some target) :
    t.locate linkLimit (t.startOf p) p.segments = some target := by
  rw [target?] at h
  split at h
  · exact absurd h (by simp)
  · exact h

/-- A path names a file where it leads to one, and where it leads to nothing. -/
theorem fileAt?_eq_some_iff {p : Path} {place : Place} :
    t.fileAt? p = some place ↔ t.target? p = some (.vacant place) ∨
      ∃ content, t.target? p = some (.found place (.file content)) := by
  rw [fileAt?]
  cases t.target? p with
  | none => simp
  | some target =>
      cases target with
      | vacant other => simp [Target.filePlace?]
      | found other e =>
          cases e with
          | file content => simp [Target.filePlace?]
          | directory => simp [Target.filePlace?]
          | link target => simp [Target.filePlace?]

/-- What is at the place of a file that a path leads to. -/
theorem find?_of_target? {p : Path} {place : Place} {content : Content}
    (h : t.target? p = some (.found place (.file content))) :
    t.find? place = some (.file content) := by
  rcases find?_of_locate (locate_of_target? h) with he | ⟨content', he, hfind⟩
  · exact absurd he (by simp)
  · rw [hfind, ← he]

theorem mayHold_of_fileAt? {p : Path} {place : Place} (h : t.fileAt? p = some place) :
    t.MayHold place := by
  rcases fileAt?_eq_some_iff.1 h with hvacant | ⟨content, hfound⟩
  · exact Or.inl (find?_of_vacant (locate_of_target? hvacant))
  · exact Or.inr ⟨content, find?_of_target? hfound⟩

/-- **A file that is put somewhere changes no path's place.** -/
theorem fileAt?_put {place : Place} (h : t.MayHold place) (content : Content) (p : Path) :
    (t.put place (.file content)).fileAt? p = t.fileAt? p := by
  rw [fileAt?, fileAt?, target?_put h, Option.bind_map]
  exact congrArg _ (funext fun target => Target.filePlace?_overwrite place content target)

/-- **Reading is looking at the place.** -/
theorem readText?_eq_some_iff {p : Path} {s : String} :
    t.readText? p = some s ↔
      ∃ place, t.fileAt? p = some place ∧ t.find? place = some (.file (.text s)) := by
  constructor
  · intro h
    rw [readText?] at h
    split at h
    · rename_i place s' htarget
      obtain rfl := Option.some.inj h
      exact ⟨place, fileAt?_eq_some_iff.2 (Or.inr ⟨_, htarget⟩), find?_of_target? htarget⟩
    · exact absurd h (by simp)
  · rintro ⟨place, hplace, hfind⟩
    rcases fileAt?_eq_some_iff.1 hplace with hvacant | ⟨content, hfound⟩
    · rw [find?_of_vacant (locate_of_target? hvacant)] at hfind
      exact absurd hfind (by simp)
    · have hcontent : content = .text s := by
        rw [find?_of_target? hfound] at hfind
        exact Entry.file.inj (Option.some.inj hfind)
      rw [readText?, hfound, hcontent]

theorem readText?_of_locate {p : Path} {segments : List String} {place : Place} {s : String}
    (hp : p.text.isEmpty = false) (hsegments : p.segments = segments)
    (h : t.locate linkLimit (t.startOf p) segments = some (.found place (.file (.text s)))) :
    t.readText? p = some s := by
  have htarget : t.target? p = some (.found place (.file (.text s))) := by
    rw [target?, hp, hsegments, h]
    rfl
  rw [readText?, htarget]

/-! ## Plain paths -/

/-- Plain directories are walked through. -/
theorem locate_of_directories {links : Nat} {dir : Place} {front rest : List String}
    (hnames : ∀ s ∈ front, Path.isIdle s = false ∧ s ≠ "..")
    (hdirs : ∀ i < front.length, t.find? (dir ++ front.take (i + 1)) = some .directory) :
    t.locate links dir (front ++ rest) = t.locate links (dir ++ front) rest := by
  induction front generalizing dir with
  | nil => rw [List.nil_append, List.append_nil]
  | cons name front ih =>
      obtain ⟨⟨hidle, hup⟩, hnames⟩ := List.forall_mem_cons.1 hnames
      have hfind : t.find? (dir ++ [name]) = some .directory := hdirs 0 (Nat.zero_lt_succ _)
      rw [List.cons_append, locate_of_directory (by rw [hidle]; simp) hup hfind, ih hnames,
        List.append_assoc, List.singleton_append]
      intro i hi
      rw [List.append_assoc, List.singleton_append]
      exact hdirs (i + 1) (Nat.succ_lt_succ hi)

/-- Is the path that of something called `name` in the directory `front`, which is there? -/
structure LiesIn (t : Tree) (p : Path) (front : List String) (name : String) : Prop where
  text : p.text.isEmpty = false
  relative : p.isAbsolute = false
  segments : p.segments = front ++ [name]
  names : ∀ s ∈ front ++ [name], Path.isIdle s = false ∧ s ≠ ".."
  directories : ∀ i < front.length,
    t.find? (t.workingDirectory ++ front.take (i + 1)) = some .directory

instance (t : Tree) (p : Path) (front : List String) (name : String) :
    Decidable (t.LiesIn p front name) :=
  decidable_of_iff (p.text.isEmpty = false ∧ p.isAbsolute = false ∧
      p.segments = front ++ [name] ∧
      (∀ s ∈ front ++ [name], Path.isIdle s = false ∧ s ≠ "..") ∧
      ∀ i < front.length, t.find? (t.workingDirectory ++ front.take (i + 1)) = some .directory)
    ⟨fun ⟨h₁, h₂, h₃, h₄, h₅⟩ => ⟨h₁, h₂, h₃, h₄, h₅⟩,
      fun ⟨h₁, h₂, h₃, h₄, h₅⟩ => ⟨h₁, h₂, h₃, h₄, h₅⟩⟩

section LiesIn

variable {p : Path} {front : List String} {name : String} (h : t.LiesIn p front name)
include h

theorem LiesIn.target?_eq :
    t.target? p = t.locate linkLimit (t.workingDirectory ++ front) [name] := by
  rw [target?, h.text, h.segments, startOf, h.relative]
  exact locate_of_directories (fun s hs => h.names s (List.mem_append_left _ hs)) h.directories

theorem LiesIn.not_isIdle : ¬Path.isIdle name = true := by
  rw [(h.names name (List.mem_append_right _ (List.mem_singleton_self _))).1]
  simp

theorem LiesIn.ne_up : ¬name = ".." :=
  (h.names name (List.mem_append_right _ (List.mem_singleton_self _))).2

theorem LiesIn.fileAt?_of_none (hnone : t.find? (t.workingDirectory ++ front ++ [name]) = none) :
    t.fileAt? p = some (t.workingDirectory ++ front ++ [name]) := by
  rw [fileAt?, h.target?_eq, locate_of_absent h.not_isIdle h.ne_up hnone]
  rfl

theorem LiesIn.fileAt?_of_file {content : Content}
    (hfile : t.find? (t.workingDirectory ++ front ++ [name]) = some (.file content)) :
    t.fileAt? p = some (t.workingDirectory ++ front ++ [name]) := by
  rw [fileAt?, h.target?_eq, locate_of_file h.not_isIdle h.ne_up hfile]
  rfl

end LiesIn

/-! ## Idle segments -/

/-- The second list is the first less some idle segments. -/
inductive DropsIdle : List String → List String → Prop
  | nil : DropsIdle [] []
  | keep (segment : String) {l m : List String} (h : DropsIdle l m) :
      DropsIdle (segment :: l) (segment :: m)
  | drop {segment : String} (hidle : Path.isIdle segment = true) {l m : List String}
      (h : DropsIdle l m) : DropsIdle (segment :: l) m

theorem DropsIdle.append {l m : List String} (h : DropsIdle l m) (front : List String) :
    DropsIdle (front ++ l) (front ++ m) := by
  induction front with
  | nil => exact h
  | cons segment front ih => exact ih.keep segment

theorem dropsIdle_filter (l : List String) :
    DropsIdle l (l.filter fun segment => !Path.isIdle segment) := by
  induction l with
  | nil => exact .nil
  | cons segment l ih =>
      by_cases h : Path.isIdle segment = true
      · rw [List.filter_cons_of_neg (by simp [h])]
        exact ih.drop h
      · rw [List.filter_cons_of_pos (by simp [h])]
        exact ih.keep segment

theorem DropsIdle.of_not_isIdle {segment : String} (hidle : ¬Path.isIdle segment = true)
    {l m : List String} (h : DropsIdle (segment :: l) m) :
    ∃ m', m = segment :: m' ∧ DropsIdle l m' := by
  cases h with
  | keep _ h => exact ⟨_, rfl, h⟩
  | drop hidle' h => exact absurd hidle' hidle

/-- **Without its idle segments a path finds the same.** -/
theorem locate_of_dropsIdle {links : Nat} {dir place : Place} {l : List String} {e : Entry}
    (h : t.locate links dir l = some (.found place e)) :
    ∀ m, DropsIdle l m → t.locate links dir m = some (.found place e) := by
  fun_induction t.locate links dir l with
  | case1 links dir =>
      intro m hlm
      cases hlm
      rw [locate_nil, h]
  | case2 links dir segment rest hidle ih =>
      intro m hlm
      cases hlm with
      | keep _ hlm => rw [locate_cons_of_isIdle hidle, ih h _ hlm]
      | drop _ hlm => exact ih h m hlm
  | case3 links dir rest hidle ih =>
      intro m hlm
      obtain ⟨m', rfl, hlm'⟩ := hlm.of_not_isIdle hidle
      rw [locate_up, ih h m' hlm']
  | case4 => exact absurd h (by simp)
  | case5 => exact absurd h (by simp)
  | case6 links dir segment rest hidle hup other hfind ih =>
      intro m hlm
      obtain ⟨m', rfl, hlm'⟩ := hlm.of_not_isIdle hidle
      rw [locate_of_directory hidle hup hfind, ih h m' hlm']
  | case7 links dir segment rest hidle hup other content hfind hrest =>
      intro m hlm
      obtain ⟨m', rfl, hlm'⟩ := hlm.of_not_isIdle hidle
      rw [List.isEmpty_iff.1 hrest] at hlm'
      cases hlm'
      rw [locate_of_file hidle hup hfind, ← h]
      rfl
  | case8 => exact absurd h (by simp)
  | case9 => exact absurd h (by simp)
  | case10 dir segment rest hidle hup other target hfind links ih =>
      intro m hlm
      obtain ⟨m', rfl, hlm'⟩ := hlm.of_not_isIdle hidle
      rw [locate_of_link hidle hup hfind]
      exact ih h _ (hlm'.append _)

/-- **Paths with the same components are read alike**, if both can be read. -/
theorem readText?_eq_of_components {p q : Path} (hpq : p.components = q.components) {s s' : String}
    (hp : t.readText? p = some s) (hq : t.readText? q = some s') : s = s' := by
  have hfound : ∀ {r : Path} {text : String}, t.readText? r = some text → ∃ place,
      t.locate linkLimit (t.startOf r) (r.segments.filter Path.counts) =
        some (.found place (.file (.text text))) := by
    intro r text h
    rw [readText?] at h
    split at h
    · rename_i place text' htarget
      obtain rfl := Option.some.inj h
      exact ⟨place, locate_of_dropsIdle (locate_of_target? htarget) _ (dropsIdle_filter r.segments)⟩
    · exact absurd h (by simp)
  obtain ⟨place, hplace⟩ := hfound hp
  obtain ⟨place', hplace'⟩ := hfound hq
  have hstart : t.startOf p = t.startOf q := by
    rw [startOf, startOf, Path.isAbsolute_congr hpq]
  rw [hstart, Path.filter_segments_congr hpq, hplace'] at hplace
  injection hplace with hplace
  injection hplace with _ hentry
  injection hentry with hentry
  injection hentry with hentry
  exact hentry.symm

end Tree
end ResourceStubs
