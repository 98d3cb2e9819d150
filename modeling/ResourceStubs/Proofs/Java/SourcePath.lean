import ResourceStubs.File.Access
import ResourceStubs.Proofs.File.Components

/-!
# The directory of a package

The place of a source file is what stands in front, which depends on the package and the
output directory, and the file name (`exists_pathBelow_eq`).  If the name of the type has
no slash in it, the directory of the file is cut out of the front alone; so all types of a
package stand in one directory (`parent?_pathBelow_congr`).
-/

namespace ResourceStubs

namespace Path

/-- The segments less the idle ones at the end. -/
def trimIdle (segments : List String) : List String :=
  (segments.reverse.dropWhile isIdle).reverse

theorem segmentsBeforeLast_concat {file : String} (h : ¬isIdle file = true)
    (front : List String) : segmentsBeforeLast (front ++ [file]) = trimIdle front := by
  rw [segmentsBeforeLast, List.reverse_concat, List.dropWhile_cons_of_neg h, List.drop_one,
    List.tail_cons, trimIdle]

/-- The parent of a path that ends with a file name. -/
theorem parent?_of_segments {p : Path} {front : List String} {file : String}
    (hsegments : p.segments = front ++ [file]) (h : ¬isIdle file = true) :
    p.parent? =
      if p.isAbsolute then some ⟨"/" ++ joinSegments (trimIdle (front.drop 1))⟩
      else if front.head? = some "." then
        some ⟨joinSegments ("." :: trimIdle (front.drop 1))⟩
      else some ⟨joinSegments (trimIdle front)⟩ := by
  have hcounts : (p.segments.filter counts) = front.filter counts ++ [file] := by
    rw [hsegments, List.filter_append, List.filter_cons_of_pos (by rwa [counts, Bool.not_eq_true'
      , ← Bool.not_eq_true]), List.filter_nil]
  have hlast : p.components.getLast? = some (Component.ofSegment file) := by
    rw [components_eq, hcounts, List.map_append, List.map_singleton, ← List.append_assoc,
      List.getLast?_concat]
  obtain ⟨hroot, hhere⟩ := ofSegment_ne file
  -- the first segment is idle in the first two cases, so it is not the file
  have hdrop : ∀ {s : String}, p.segments.head? = some s → isIdle s = true →
      front.head? = some s ∧ p.segments.drop 1 = front.drop 1 ++ [file] := by
    intro s hs hidle
    cases front with
    | nil =>
        rw [hsegments, List.nil_append, List.head?_cons, Option.some.injEq] at hs
        rw [hs] at h
        exact absurd hidle h
    | cons x front =>
        rw [hsegments] at hs ⊢
        exact ⟨hs, rfl⟩
  rw [parent?_of_getLast? hlast hroot hhere]
  rcases lead_cases p with ⟨habs, hlead⟩ | ⟨habs, hhead, hlead⟩ | ⟨habs, hhead, hlead⟩
  · obtain ⟨rest, hrest⟩ := segments_of_isAbsolute habs
    have hhead : p.segments.head? = some "" := by rw [hrest, List.head?_cons]
    rw [hlead, habs, if_pos rfl, (hdrop hhead (by decide)).2]
    dsimp only
    rw [segmentsBeforeLast_concat h]
  · obtain ⟨hfront, hsegs⟩ := hdrop hhead (by decide)
    rw [hlead, habs, if_neg (by simp), if_pos hfront, hsegs]
    dsimp only
    rw [segmentsBeforeLast_concat h]
  · have hfront : front.head? ≠ some "." := by
      intro hf
      refine hhead ?_
      rw [hsegments, List.head?_append, hf, Option.some_or]
    rw [hlead, habs, if_neg (by simp), if_neg hfront, hsegments]
    dsimp only
    rw [segmentsBeforeLast_concat h]

/-- Does the text end a directory, so that a file name may follow? -/
def IsFront (front : String) : Prop :=
  front = "" ∨ ∃ before, front.toList = before ++ ['/']

/-- A file name behind a front is the last segment. -/
theorem exists_segments_append {front : String} (hfront : IsFront front) :
    ∃ segs : List String, ∀ name : String, '/' ∉ name.toList →
      segments ⟨front ++ name⟩ = segs ++ [name] := by
  rcases hfront with rfl | ⟨before, hbefore⟩
  · refine ⟨[], fun name hname => ?_⟩
    rw [segments, String.empty_append, Text.pieces_of_notMem hname]
    simp
  · refine ⟨(Text.pieces '/' before).map String.ofList, fun name hname => ?_⟩
    rw [segments, String.toList_append, hbefore, List.append_assoc, List.singleton_append,
      Text.pieces_append, Text.pieces_of_notMem hname, List.map_append]
    simp

/-- **The parent is cut out of the front.** -/
theorem parent?_append_congr {front file file' : String} (hfront : IsFront front)
    (hslash : '/' ∉ file.toList) (hslash' : '/' ∉ file'.toList) (h : ¬isIdle file = true)
    (h' : ¬isIdle file' = true) : parent? ⟨front ++ file⟩ = parent? ⟨front ++ file'⟩ := by
  have habs : isAbsolute ⟨front ++ file⟩ = isAbsolute ⟨front ++ file'⟩ := by
    have hhead : ∀ name : String, '/' ∉ name.toList → name.toList.head? ≠ some '/' :=
      fun name hname hn => hname (List.mem_of_head? hn)
    rw [isAbsolute, isAbsolute, String.toList_append, String.toList_append, List.head?_append,
      List.head?_append]
    rcases hfront with rfl | ⟨before, hbefore⟩
    · have hnone : ("" : String).toList.head? = none := rfl
      rw [hnone, Option.none_or, Option.none_or, beq_eq_false_iff_ne.2 (hhead file hslash),
        beq_eq_false_iff_ne.2 (hhead file' hslash')]
    · rw [hbefore]
      cases before <;> rfl
  obtain ⟨segs, hsegs⟩ := exists_segments_append hfront
  rw [parent?_of_segments (hsegs file hslash) h, parent?_of_segments (hsegs file' hslash') h',
    habs]

/-- What stands in front of a relative path that is joined to `p`. -/
def front (p : Path) : String :=
  if p.text.isEmpty ∨ p.text.toList.getLast? = some '/' then p.text else p.text ++ "/"

theorem isFront_front (p : Path) : IsFront p.front := by
  rw [front]
  split
  · rename_i h
    rcases h with h | h
    · exact Or.inl (String.isEmpty_iff.1 h)
    · obtain ⟨before, hbefore⟩ := List.getLast?_eq_some_iff.1 h
      exact Or.inr ⟨before, hbefore⟩
  · exact Or.inr ⟨p.text.toList, by rw [String.toList_append]; rfl⟩

theorem join_of_relative {p q : Path} (h : q.isAbsolute = false) :
    p.join q = ⟨p.front ++ q.text⟩ := by
  rw [join, if_neg (by simp [h]), front]
  split
  · rfl
  · rfl

end Path

namespace Java
namespace CompilationUnit

open ResourceStubs.Path

theorem isIdle_append_java (name : String) : ¬isIdle (name ++ ".java") = true := by
  have hlength : 5 ≤ (name ++ ".java").length := by
    rw [String.length_append]
    exact Nat.le_add_left 5 _
  rw [isIdle, Bool.or_eq_true, beq_iff_eq, beq_iff_eq, not_or]
  constructor
  · intro h
    rw [h] at hlength
    exact absurd hlength (by decide)
  · intro h
    rw [h] at hlength
    exact absurd hlength (by decide)

theorem notMem_append_java {name : String} (h : '/' ∉ name.toList) :
    '/' ∉ (name ++ ".java").toList := by
  rw [String.toList_append, List.mem_append, not_or]
  exact ⟨h, by decide⟩

theorem isAbsolute_append {front name : String} (hname : '/' ∉ name.toList) :
    isAbsolute ⟨front ++ name⟩ = (front.toList.head? == some '/') := by
  rw [isAbsolute, String.toList_append, List.head?_append]
  cases front.toList with
  | nil =>
      rw [List.head?_nil, Option.none_or]
      exact beq_eq_false_iff_ne.2 fun h => hname (List.mem_of_head? h)
  | cons c cs => rfl

/-- The place of a source file is a front and the file name. -/
theorem exists_pathBelow_eq (package : String) (dir : Path) :
    ∃ front, IsFront front ∧ ∀ name body, '/' ∉ name.toList →
      pathBelow ⟨package, name, body⟩ dir = ⟨front ++ (name ++ ".java")⟩ := by
  have hrelative : ∃ base, IsFront base ∧ ∀ name body, '/' ∉ name.toList →
      relativePath ⟨package, name, body⟩ = ⟨base ++ (name ++ ".java")⟩ := by
    let segments := packageSegments ⟨package, "", ""⟩
    refine ⟨front (segments.foldl (fun (p : Path) s => p.join ⟨s⟩) ⟨""⟩), isFront_front _,
      fun name body hname => ?_⟩
    rw [relativePath, join_of_relative]
    · rfl
    · exact beq_eq_false_iff_ne.2 fun h => notMem_append_java hname (List.mem_of_head? h)
  obtain ⟨base, hbase, hpath⟩ := hrelative
  by_cases habs : (base.toList.head? == some '/') = true
  · refine ⟨base, hbase, fun name body hname => ?_⟩
    rw [pathBelow, hpath name body hname, join, if_pos]
    rw [isAbsolute_append (notMem_append_java hname), habs]
  · refine ⟨dir.front ++ base, ?_, fun name body hname => ?_⟩
    · rcases hbase with rfl | ⟨before, hbefore⟩
      · rw [String.append_empty]
        exact isFront_front dir
      · refine Or.inr ⟨dir.front.toList ++ before, ?_⟩
        rw [String.toList_append, hbefore, List.append_assoc]
    · rw [pathBelow, hpath name body hname, join_of_relative, String.append_assoc]
      rw [isAbsolute_append (notMem_append_java hname)]
      exact Bool.not_eq_true _ ▸ habs

/-- **All types of a package stand in one directory**, if their names have no slash. -/
theorem parent?_pathBelow_congr {name name' : String} (h : '/' ∉ name.toList)
    (h' : '/' ∉ name'.toList) (package body body' : String) (dir : Path) :
    (pathBelow ⟨package, name, body⟩ dir).parent? =
      (pathBelow ⟨package, name', body'⟩ dir).parent? := by
  obtain ⟨front, hfront, hpath⟩ := exists_pathBelow_eq package dir
  rw [hpath name body h, hpath name' body' h']
  exact parent?_append_congr hfront (notMem_append_java h) (notMem_append_java h')
    (isIdle_append_java _) (isIdle_append_java _)

end CompilationUnit
end Java
end ResourceStubs
