import ResourceStubs.Proofs.File.Components
import ResourceStubs.Proofs.Text.Joined
import ResourceStubs.Settings.Basic

/-!
# Directories that are excluded by their name

The pattern `**/name/**` is cleared of its stars, and what is left of it is looked for in the
text of a path, between two slashes.  Nothing else is asked of the path, so this file says what
the search comes to on the steps of the path.

Between two slashes stands a whole step that is neither the first nor the last piece of the text
(`matchesDirectory_iff`).  The last piece is the file, and that it does not count is what the
pattern is for.  The first piece of an absolute path is the nothing in front of its slash, so all
its directories count (`writtenSteps_of_isAbsolute`).  But the first piece of a relative path is
its first directory, and there is no slash in front of that one: it is passed over.
-/

namespace ResourceStubs

namespace Path

/-- The steps of a path as they are written, from the root or from the current directory. -/
def writtenSteps (p : Path) : List String :=
  if p.isAbsolute then p.segments.tail else p.segments

/-- The directories on the way to the last step, as they are written. -/
def writtenDirectories (p : Path) : List String :=
  p.writtenSteps.dropLast

variable {p : Path}

theorem writtenSteps_of_isAbsolute (h : p.isAbsolute = true) :
    p.writtenSteps = p.segments.tail :=
  if_pos h

theorem writtenSteps_of_not_isAbsolute (h : p.isAbsolute = false) :
    p.writtenSteps = p.segments :=
  if_neg (by rw [h]; simp)

end Path

namespace Exclude

open Text

/-! ## The name in the pattern -/

section Name

variable {name : List Char}

/-- What stands before the name is removed. -/
theorem replaceAll_lead (hstar : '*' ∉ name) :
    replaceAll "**/".toList [] ("**/".toList ++ (name ++ "/**".toList)) = name ++ "/**".toList := by
  have hfirst : ¬"**/".toList <:+: [] ++ "**/".toList.dropLast := by decide
  have hrest : ¬"**/".toList <:+: name ++ "/**".toList := by
    intro h
    have hname : ['*', '*'] ++ ['/'] <:+: (name ++ ['/']) ++ ['*', '*'] := by
      rw [List.append_assoc]
      exact h
    rw [infix_append_iff_of_notMem (by decide)] at hname
    have hmem : '*' ∈ name ++ ['/'] := hname.subset List.mem_cons_self
    rcases List.mem_append.1 hmem with hmem | hmem
    · exact hstar hmem
    · exact absurd hmem (by decide)
  exact replaceAll_nil_of_once (by decide) hfirst hrest

/-- What stands behind the name is removed. -/
theorem replaceAll_trail (hstar : '*' ∉ name) :
    replaceAll "/**".toList [] (name ++ "/**".toList) = name := by
  have hfirst : ¬"/**".toList <:+: name ++ "/**".toList.dropLast := by
    intro h
    -- two stars do not fit where there is one
    have hcount := h.sublist.count_le '*'
    rw [List.count_append, List.count_eq_zero_of_not_mem hstar] at hcount
    exact absurd hcount (by decide)
  have hrest : ¬"/**".toList <:+: [] := by decide
  have hremoved := replaceAll_nil_of_once (by decide) hfirst hrest
  rwa [List.append_nil, List.append_nil] at hremoved

/-- **The pattern looks for the name between two slashes.** -/
theorem matchesDirectory_iff (hstar : '*' ∉ name) (hslash : '/' ∉ name) (text : List Char) :
    matchesDirectory ("**/".toList ++ (name ++ "/**".toList)) text = true ↔
      name ∈ (pieces '/' text).tail.dropLast := by
  have hends : ∀ c ∈ name, (c == '/') = false := fun c hc => by
    rw [beq_eq_false_iff_ne]
    exact fun h => hslash (h ▸ hc)
  have hhead : name.dropWhile (· == '/') = name :=
    dropWhile_of_head? fun c hc => hends c (List.mem_of_mem_head? hc)
  have hlast : dropEndWhile (· == '/') name = name :=
    dropEndWhile_of_getLast? fun c hc => hends c (List.mem_of_mem_getLast? hc)
  rw [matchesDirectory, replaceAll_lead hstar, replaceAll_trail hstar, hhead, hlast, occursIn_iff]
  exact enclosed_infix_iff_mem_pieces hslash text

/-- Of the shapes that a pattern can have, this one is taken. -/
theorem matchesChars_eq_matchesDirectory (name text : List Char) :
    matchesChars ("**/".toList ++ (name ++ "/**".toList)) text =
      matchesDirectory ("**/".toList ++ (name ++ "/**".toList)) text := by
  have hslash : '/' ∈ "**/".toList ++ (name ++ "/**".toList) :=
    List.mem_append_left _ (by decide)
  have hbegins : anyDirectories <+: "**/".toList := by decide
  have hstars : occursIn anyDirectories ("**/".toList ++ (name ++ "/**".toList)) = true :=
    occursIn_iff.2 (hbegins.trans (List.prefix_append _ _)).isInfix
  have hlead : startsWith "**/".toList ("**/".toList ++ (name ++ "/**".toList)) = true :=
    isSome_afterStart?_iff.2 (List.prefix_append _ _)
  have htrail : endsWith "/**".toList ("**/".toList ++ (name ++ "/**".toList)) = true := by
    rw [endsWith, startsWith, isSome_afterStart?_iff, List.reverse_prefix, ← List.append_assoc]
    exact List.suffix_append _ _
  rw [matchesChars, if_neg (fun h => h.2 hslash), if_neg (fun h => h.2 hslash), if_pos hstars,
    if_pos ⟨hlead, htrail⟩]

end Name

end Exclude

/-! ## The directories of a path -/

namespace Settings

open Exclude

variable {s : Settings} {directory : String}

/-- A directory of the path is looked for among its segments, without the first and the last. -/
theorem excludes_iff_mem_segments (hexclude : s.exclude = ["**/" ++ directory ++ "/**"])
    (hslash : '/' ∉ directory.toList) (hstar : '*' ∉ directory.toList) (p : Path) :
    s.excludes p = true ↔ directory ∈ p.segments.tail.dropLast := by
  have hpattern : ("**/" ++ directory ++ "/**").toList =
      "**/".toList ++ (directory.toList ++ "/**".toList) := by
    rw [String.toList_append, String.toList_append, List.append_assoc]
  have hpieces : directory.toList ∈ (Text.pieces '/' p.text.toList).tail.dropLast ↔
      directory ∈ p.segments.tail.dropLast := by
    rw [Path.segments, ← List.map_tail, ← List.map_dropLast, List.mem_map]
    constructor
    · exact fun h => ⟨_, h, String.ofList_toList⟩
    · rintro ⟨piece, hpiece, rfl⟩
      rwa [String.toList_ofList]
  rw [Settings.excludes, Exclude.excludes, hexclude, List.any_cons, List.any_nil, Bool.or_false,
    hpattern, matchesChars_eq_matchesDirectory, matchesDirectory_iff hstar hslash, hpieces]

/-- **What the pattern of a directory excludes.**

With the pattern `**/name/**` alone, an absolute path is excluded if and only if one of its
directories has the name.  Of a relative path the first directory is passed over.  So the pattern
excludes the paths with such a directory, except for those that are relative and have it only at
their beginning. -/
theorem excludes_directory_iff (hexclude : s.exclude = ["**/" ++ directory ++ "/**"])
    (hslash : '/' ∉ directory.toList) (hstar : '*' ∉ directory.toList) (p : Path) :
    (p.isAbsolute = true → (s.excludes p = true ↔ directory ∈ p.writtenDirectories)) ∧
    (p.isAbsolute = false → (s.excludes p = true ↔ directory ∈ p.writtenDirectories.tail)) ∧
    ((s.excludes p = true ↔ directory ∈ p.writtenDirectories) ↔
      ¬(p.isAbsolute = false ∧ p.writtenDirectories.head? = some directory ∧
        directory ∉ p.writtenDirectories.tail)) := by
  have hmem := excludes_iff_mem_segments hexclude hslash hstar p
  have habsolute : p.isAbsolute = true →
      (s.excludes p = true ↔ directory ∈ p.writtenDirectories) := by
    intro h
    rw [hmem, Path.writtenDirectories, Path.writtenSteps_of_isAbsolute h]
  have hrelative : p.isAbsolute = false →
      (s.excludes p = true ↔ directory ∈ p.writtenDirectories.tail) := by
    intro h
    rw [hmem, Path.writtenDirectories, Path.writtenSteps_of_not_isAbsolute h, List.tail_dropLast]
  refine ⟨habsolute, hrelative, ?_⟩
  cases h : p.isAbsolute with
  | true => simp [habsolute h]
  | false =>
      rw [hrelative h]
      cases p.writtenDirectories with
      | nil => simp
      | cons first rest => simp [eq_comm]

/-- Directories in the middle and at the start of absolute and relative paths, one that only
begins with the name, and a file that has it. -/
theorem excludes_directory_iff_build :
    let s : Settings := { exclude := ["**/build/**"] }
    s.excludes ⟨"/build/res/raw/a.json"⟩ = true ∧ s.excludes ⟨"app/build/res/raw/a.json"⟩ = true ∧
      s.excludes ⟨"/app/buildSrc/res/raw/a.json"⟩ = false ∧
      s.excludes ⟨"/app/res/raw/build"⟩ = false := by
  intro s
  have hexclude : s.exclude = ["**/" ++ "build" ++ "/**"] := by decide
  have hpath := excludes_directory_iff hexclude (by decide) (by decide)
  refine ⟨((hpath _).1 (by decide)).2 (by decide), ((hpath _).2.1 (by decide)).2 (by decide),
    Bool.eq_false_iff.2 fun h => ?_, Bool.eq_false_iff.2 fun h => ?_⟩
  · exact absurd (((hpath _).1 (by decide)).1 h) (by decide)
  · exact absurd (((hpath _).1 (by decide)).1 h) (by decide)

/-- A directory at the beginning of a relative path is not excluded by its name. -/
theorem not_excludes_leading_build :
    let s : Settings := { exclude := ["**/build/**"] }
    let p : Path := ⟨"build/res/values/a.xml"⟩
    "" ∉ p.writtenSteps ∧ "build" ∈ p.writtenDirectories ∧ s.excludes p = false := by
  intro s p
  have hexclude : s.exclude = ["**/" ++ "build" ++ "/**"] := by decide
  refine ⟨by decide, by decide, Bool.eq_false_iff.2 fun h => ?_⟩
  exact absurd ((excludes_iff_mem_segments hexclude (by decide) (by decide) p).1 h) (by decide)

end Settings
end ResourceStubs
