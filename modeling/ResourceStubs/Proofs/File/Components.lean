import ResourceStubs.File.Path
import ResourceStubs.Proofs.Text.Pieces

/-!
# Paths by their components

Two paths with the same components lie in the same directory and have the same file
name, stem and extension, however they are written.  For the name and what is cut out
of it this is immediate; for the directory it needs that a parent, although it is cut
out of the text, has all components but the last (`components_of_parent?`).

The order of paths is the order of their components (`le_eq`), which is total and tells
different components apart.
-/

namespace ResourceStubs
namespace Path

open Std

/-! ## The order of components -/

instance : TransCmp Component.cmp :=
  inferInstanceAs (TransCmp (compareLex (compareOn Component.rank) (compareOn Component.nameText)))

instance : LawfulEqCmp Component.cmp where
  compare_self := ReflCmp.compare_self
  eq_of_compare {a b} h := by
    rw [Component.cmp, compareLex, Ordering.then_eq_eq] at h
    have hrank : a.rank = b.rank := LawfulEqCmp.eq_of_compare h.1
    have hname : a.nameText = b.nameText := LawfulEqCmp.eq_of_compare h.2
    cases a <;> cases b <;> simp_all [Component.rank, Component.nameText]

/-- The order of lists of components. -/
def componentsCmp : List Component → List Component → Ordering :=
  List.compareLex Component.cmp

instance : TransCmp componentsCmp :=
  inferInstanceAs (TransCmp (List.compareLex Component.cmp))

instance : LawfulEqCmp componentsCmp :=
  inferInstanceAs (LawfulEqCmp (List.compareLex Component.cmp))

/-- Of two lists, one stands before the other or is the same. -/
theorem componentsCmp_total (xs ys : List Component) :
    ((componentsCmp xs ys).isLE || (componentsCmp ys xs).isLE) = true := by
  rw [Bool.or_eq_true]
  cases hc : componentsCmp xs ys with
  | lt => exact Or.inl rfl
  | eq => exact Or.inl rfl
  | gt => exact Or.inr (by rw [OrientedCmp.lt_of_gt hc]; rfl)

theorem le_eq (p q : Path) : p.le q = (componentsCmp p.components q.components).isLE := rfl

theorem same_iff {p q : Path} : p.same q = true ↔ p.components = q.components := by
  rw [same, beq_iff_eq]

/-! ## Segments -/

/-- Does the segment say something? -/
def counts (segment : String) : Bool :=
  !isIdle segment

theorem counts_iff {segment : String} : counts segment = true ↔ segment ≠ "" ∧ segment ≠ "." := by
  rw [counts, isIdle, Bool.not_eq_true', Bool.or_eq_false_iff, beq_eq_false_iff_ne,
    beq_eq_false_iff_ne]

theorem components_eq (p : Path) :
    p.components = p.lead ++ (p.segments.filter counts).map Component.ofSegment := rfl

theorem notMem_of_mem_segments {p : Path} {segment : String} (h : segment ∈ p.segments) :
    '/' ∉ segment.toList := by
  obtain ⟨piece, hpiece, rfl⟩ := List.mem_map.1 h
  rw [String.toList_ofList]
  exact Text.notMem_of_mem_pieces hpiece

theorem segments_joinSegments {segs : List String} (hne : segs ≠ [])
    (h : ∀ s ∈ segs, '/' ∉ s.toList) : segments ⟨joinSegments segs⟩ = segs := by
  have hslash : "/".toList = ['/'] := rfl
  rw [segments, joinSegments, String.toList_intercalate, hslash,
    Text.pieces_intercalate (by simpa using hne)]
  · rw [List.map_map]
    simp [Function.comp_def]
  · intro cs hcs
    obtain ⟨s, hs, rfl⟩ := List.mem_map.1 hcs
    exact h s hs

theorem segments_slash_append (text : String) :
    segments ⟨"/" ++ text⟩ = "" :: segments ⟨text⟩ := by
  have hslash : ("/" ++ text).toList = [] ++ '/' :: text.toList := by
    rw [String.toList_append]
    rfl
  rw [segments, hslash, Text.pieces_append_cons List.not_mem_nil]
  rfl

/-- The segments that count, after the last of them and the idle ones around it are
gone, are all but the last. -/
theorem filter_segmentsBeforeLast (segs : List String) :
    (segmentsBeforeLast segs).filter counts = (segs.filter counts).dropLast := by
  have hdrop : ∀ l : List String, (l.dropWhile isIdle).filter counts = l.filter counts := by
    intro l
    induction l with
    | nil => rfl
    | cons s l ih =>
        by_cases hs : isIdle s = true
        · rw [List.dropWhile_cons_of_pos hs, ih, List.filter_cons_of_neg (by simp [counts, hs])]
        · rw [List.dropWhile_cons_of_neg hs]
  have htail : ∀ l : List String,
      ((l.dropWhile isIdle).drop 1).filter counts = (l.filter counts).tail := by
    intro l
    induction l with
    | nil => rfl
    | cons s l ih =>
        by_cases hs : isIdle s = true
        · rw [List.dropWhile_cons_of_pos hs, ih, List.filter_cons_of_neg (by simp [counts, hs])]
        · rw [List.dropWhile_cons_of_neg hs, List.filter_cons_of_pos (by simp [counts, hs])]
          rfl
  rw [segmentsBeforeLast, List.filter_reverse, hdrop, htail, List.filter_reverse,
    List.tail_reverse, List.reverse_reverse]

theorem isPrefix_segmentsBeforeLast (segs : List String) : segmentsBeforeLast segs <+: segs := by
  have hsuffix : ((segs.reverse.dropWhile isIdle).drop 1).dropWhile isIdle <:+ segs.reverse :=
    (List.dropWhile_suffix _).trans ((List.drop_suffix _ _).trans (List.dropWhile_suffix _))
  rw [← List.reverse_prefix, List.reverse_reverse] at hsuffix
  exact hsuffix

/-! ## The parent -/

theorem segments_of_isAbsolute {p : Path} (h : p.isAbsolute = true) :
    ∃ rest, p.segments = "" :: rest := by
  rw [isAbsolute, beq_iff_eq] at h
  cases ht : p.text.toList with
  | nil =>
      rw [ht, List.head?_nil] at h
      exact absurd h (by simp)
  | cons c cs =>
      rw [ht, List.head?_cons, Option.some.injEq] at h
      refine ⟨(Text.pieces '/' cs).map String.ofList, ?_⟩
      rw [segments, ht, h, Text.pieces, if_pos rfl]
      rfl

/-- A relative path that is not empty begins with a segment that is not empty. -/
theorem segments_of_not_isAbsolute {p : Path} (h : p.isAbsolute = false) (ht : p.text ≠ "") :
    ∃ s rest, p.segments = s :: rest ∧ s ≠ "" := by
  cases hc : p.text.toList with
  | nil => exact absurd (String.toList_eq_nil_iff.1 hc) ht
  | cons c cs =>
      have hne : c ≠ '/' := by
        intro he
        rw [isAbsolute, hc, List.head?_cons, he] at h
        exact absurd h (by simp)
      obtain ⟨piece, rest, hp⟩ := Text.pieces_cons_of_ne hne cs
      refine ⟨String.ofList (c :: piece), rest.map String.ofList, ?_, ?_⟩
      · rw [segments, hc, hp, List.map_cons]
      · intro he
        have hnil := congrArg String.toList he
        rw [String.toList_ofList] at hnil
        exact absurd hnil (by simp)

theorem isAbsolute_joinSegments {s : String} (hs : s ≠ "") (hslash : '/' ∉ s.toList)
    (rest : List String) : (⟨joinSegments (s :: rest)⟩ : Path).isAbsolute = false := by
  have hhead : (joinSegments (s :: rest)).toList.head? = s.toList.head? := by
    cases hc : s.toList with
    | nil => exact absurd (String.toList_eq_nil_iff.1 hc) hs
    | cons c cs =>
        rw [joinSegments, String.toList_intercalate, List.map_cons]
        cases rest with
        | nil => rw [List.map_nil, List.intercalate_singleton, hc]
        | cons r rest =>
            rw [List.map_cons, List.intercalate_cons_cons, hc, List.cons_append, List.cons_append]
            rfl
  rw [isAbsolute, hhead]
  cases hc : s.toList with
  | nil => rfl
  | cons c cs =>
      rw [hc, List.mem_cons, not_or] at hslash
      simpa using Ne.symm hslash.1

/-- The joined path of segments that begin with one that is not empty. -/
theorem components_joinSegments {s : String} (hs : s ≠ "") {rest : List String}
    (h : ∀ x ∈ s :: rest, '/' ∉ x.toList) :
    components ⟨joinSegments (s :: rest)⟩ =
      (if s = "." then [.here] else []) ++
        ((s :: rest).filter counts).map Component.ofSegment := by
  have hsegs : segments ⟨joinSegments (s :: rest)⟩ = s :: rest :=
    segments_joinSegments (List.cons_ne_nil _ _) h
  have habs := isAbsolute_joinSegments hs (h s List.mem_cons_self) rest
  rw [components_eq, lead, habs, hsegs]
  simp

/-- Joining loses no segment that counts, and makes none. -/
theorem filter_segments_joinSegments {segs : List String} (h : ∀ s ∈ segs, '/' ∉ s.toList) :
    (segments ⟨joinSegments segs⟩).filter counts = segs.filter counts := by
  cases segs with
  | nil => rfl
  | cons s segs => rw [segments_joinSegments (List.cons_ne_nil _ _) h]

theorem ofSegment_ne (segment : String) :
    Component.ofSegment segment ≠ .root ∧ Component.ofSegment segment ≠ .here := by
  rw [Component.ofSegment]
  split <;> simp

theorem lead_cases (p : Path) :
    (p.isAbsolute = true ∧ p.lead = [.root]) ∨
      (p.isAbsolute = false ∧ p.segments.head? = some "." ∧ p.lead = [.here]) ∨
      (p.isAbsolute = false ∧ p.segments.head? ≠ some "." ∧ p.lead = []) := by
  rw [lead]
  cases p.isAbsolute with
  | true => exact Or.inl ⟨rfl, rfl⟩
  | false =>
      by_cases h : p.segments.head? = some "."
      · exact Or.inr (Or.inl ⟨rfl, h, by simp [h]⟩)
      · exact Or.inr (Or.inr ⟨rfl, h, by simp [h]⟩)

/-- The parent of a path from the root. -/
theorem components_cut_absolute {p : Path} (h : p.isAbsolute = true) :
    components ⟨"/" ++ joinSegments (segmentsBeforeLast (p.segments.drop 1))⟩ =
      .root :: ((p.segments.filter counts).dropLast).map Component.ofSegment := by
  obtain ⟨rest, hrest⟩ := segments_of_isAbsolute h
  have hslash : ∀ s ∈ segmentsBeforeLast rest, '/' ∉ s.toList := fun s hs =>
    notMem_of_mem_segments (p := p) (by
      rw [hrest]
      exact List.mem_cons_of_mem _ ((isPrefix_segmentsBeforeLast rest).subset hs))
  have hlead : lead ⟨"/" ++ joinSegments (segmentsBeforeLast rest)⟩ = [.root] := by
    have habs : isAbsolute ⟨"/" ++ joinSegments (segmentsBeforeLast rest)⟩ = true := by
      rw [isAbsolute, String.toList_append]
      rfl
    rw [lead, habs]
    rfl
  rw [hrest, List.drop_one, List.tail_cons, components_eq, hlead, segments_slash_append,
    List.filter_cons_of_neg (by decide), List.filter_cons_of_neg (by decide),
    filter_segments_joinSegments hslash, filter_segmentsBeforeLast]
  rfl

/-- The parent of a path that starts with the current directory. -/
theorem components_cut_here {p : Path} (h : p.segments.head? = some ".") :
    components ⟨joinSegments ("." :: segmentsBeforeLast (p.segments.drop 1))⟩ =
      .here :: ((p.segments.filter counts).dropLast).map Component.ofSegment := by
  obtain ⟨rest, hrest⟩ := List.head?_eq_some_iff.1 h
  have hslash : ∀ s ∈ "." :: segmentsBeforeLast rest, '/' ∉ s.toList := by
    intro s hs
    refine notMem_of_mem_segments (p := p) ?_
    rw [hrest]
    rcases List.mem_cons.1 hs with rfl | hs
    · exact List.mem_cons_self
    · exact List.mem_cons_of_mem _ ((isPrefix_segmentsBeforeLast rest).subset hs)
  rw [hrest, List.drop_one, List.tail_cons, components_joinSegments (by decide) hslash,
    if_pos rfl, List.filter_cons_of_neg (by decide), List.filter_cons_of_neg (by decide),
    filter_segmentsBeforeLast]
  rfl

/-- The parent of any other path. -/
theorem components_cut_relative {p : Path} (habs : p.isAbsolute = false)
    (h : p.segments.head? ≠ some ".") :
    components ⟨joinSegments (segmentsBeforeLast p.segments)⟩ =
      ((p.segments.filter counts).dropLast).map Component.ofSegment := by
  rw [← filter_segmentsBeforeLast]
  cases hb : segmentsBeforeLast p.segments with
  | nil => rfl
  | cons s rest =>
      obtain ⟨after, hsegs⟩ := isPrefix_segmentsBeforeLast p.segments
      rw [hb, List.cons_append] at hsegs
      have hdot : s ≠ "." := by
        intro hs
        rw [← hsegs, hs] at h
        exact h rfl
      have hne : s ≠ "" := by
        by_cases ht : p.text = ""
        · -- the empty path has one idle segment, and nothing stands before the last that counts
          have hp : p = ⟨""⟩ := by rw [← ht]
          have hempty : segmentsBeforeLast (segments ⟨""⟩) = [] := by decide
          rw [hp, hempty] at hb
          exact absurd hb (by simp)
        · obtain ⟨s', rest', hsegs', hs'⟩ := segments_of_not_isAbsolute habs ht
          rw [hsegs', List.cons.injEq] at hsegs
          rw [hsegs.1]
          exact hs'
      have hslash : ∀ x ∈ s :: rest, '/' ∉ x.toList := fun x hx =>
        notMem_of_mem_segments (p := p)
          ((isPrefix_segmentsBeforeLast p.segments).subset (by rw [hb]; exact hx))
      rw [components_joinSegments hne hslash, if_neg hdot, List.nil_append]

/-- Cutting the last component off, where it is neither the root nor the leading dot. -/
theorem parent?_of_getLast? {p : Path} {c : Component} (hlast : p.components.getLast? = some c)
    (hroot : c ≠ .root) (hhere : c ≠ .here) :
    p.parent? = match p.lead with
      | .root :: _ => some ⟨"/" ++ joinSegments (segmentsBeforeLast (p.segments.drop 1))⟩
      | .here :: _ => some ⟨joinSegments ("." :: segmentsBeforeLast (p.segments.drop 1))⟩
      | _ => some ⟨joinSegments (segmentsBeforeLast p.segments)⟩ := by
  rw [parent?, hlast]
  cases c with
  | root => exact absurd rfl hroot
  | here => exact absurd rfl hhere
  | up => rfl
  | name text => rfl

/-- **The parent has all components but the last.**  Only the empty path and the root
have no parent. -/
theorem map_components_parent? (p : Path) :
    p.parent?.map components =
      if p.components.getLast? = none ∨ p.components.getLast? = some .root then none
      else some p.components.dropLast := by
  have hbody := components_eq p
  by_cases hnil : p.segments.filter counts = []
  · -- there is the lead and nothing else
    rw [hnil, List.map_nil, List.append_nil] at hbody
    rw [parent?, hbody]
    rcases lead_cases p with ⟨-, hlead⟩ | ⟨-, -, hlead⟩ | ⟨-, -, hlead⟩ <;> rw [hlead] <;> rfl
  · obtain ⟨front, s, hfront⟩ : ∃ front s, p.segments.filter counts = front ++ [s] :=
      ⟨_, _, (List.dropLast_concat_getLast hnil).symm⟩
    have hdrop : (p.segments.filter counts).dropLast = front := by
      rw [hfront, List.dropLast_concat]
    rw [hfront, List.map_append, List.map_singleton, ← List.append_assoc] at hbody
    obtain ⟨hroot, hhere⟩ := ofSegment_ne s
    have hlast : p.components.getLast? = some (Component.ofSegment s) := by
      rw [hbody, List.getLast?_concat]
    rw [parent?_of_getLast? hlast hroot hhere, hlast, if_neg (by simpa using hroot), hbody,
      List.dropLast_concat, ← hdrop]
    rcases lead_cases p with ⟨habs, hlead⟩ | ⟨-, hhead, hlead⟩ | ⟨habs, hhead, hlead⟩
    · rw [hlead]
      exact congrArg some (components_cut_absolute habs)
    · rw [hlead]
      exact congrArg some (components_cut_here hhead)
    · rw [hlead]
      exact congrArg some (components_cut_relative habs hhead)

/-! ## What depends on the components only -/

/-- The name that a component has. -/
def Component.name? : Component → Option String
  | .name text => some text
  | _ => none

theorem fileName?_eq (p : Path) : p.fileName? = p.components.getLast?.bind Component.name? := by
  rw [fileName?]
  cases p.components.getLast? with
  | none => rfl
  | some c => cases c <;> rfl

theorem directoryName?_eq (p : Path) :
    p.directoryName? =
      if p.components.getLast? = none ∨ p.components.getLast? = some .root then none
      else p.components.dropLast.getLast?.bind Component.name? := by
  have hparent := map_components_parent? p
  rw [directoryName?]
  cases hp : p.parent? with
  | none =>
      rw [hp, Option.map_none] at hparent
      split at hparent
      · rename_i h
        rw [if_pos h]
        rfl
      · exact absurd hparent (by simp)
  | some q =>
      rw [hp, Option.map_some] at hparent
      split at hparent
      · exact absurd hparent (by simp)
      · rename_i h
        rw [if_neg h, Option.bind_some, fileName?_eq, Option.some.inj hparent]

/-- The segment that a component was made from, if it was made from one. -/
def Component.segment? : Component → Option String
  | .root => none
  | .here => none
  | .up => some ".."
  | .name text => some text

theorem Component.segment?_ofSegment (segment : String) :
    (Component.ofSegment segment).segment? = some segment := by
  rw [ofSegment]
  split
  · rename_i h
    rw [h]
    rfl
  · rfl

theorem filter_segments_eq (p : Path) :
    p.segments.filter counts = p.components.filterMap Component.segment? := by
  have hlead : p.lead.filterMap Component.segment? = [] := by
    rcases lead_cases p with ⟨-, h⟩ | ⟨-, -, h⟩ | ⟨-, -, h⟩ <;> rw [h] <;> rfl
  rw [components_eq, List.filterMap_append, hlead, List.nil_append, List.filterMap_map]
  have hsome : Component.segment? ∘ Component.ofSegment = some :=
    funext Component.segment?_ofSegment
  rw [hsome, List.filterMap_some]

theorem isAbsolute_eq_isRooted (p : Path) :
    p.isAbsolute = decide (p.components.head? = some .root) := by
  rw [components_eq]
  rcases lead_cases p with ⟨habs, h⟩ | ⟨habs, -, h⟩ | ⟨habs, -, h⟩
  · rw [habs, h]
    rfl
  · rw [habs, h]
    rfl
  · rw [habs, h, List.nil_append]
    cases p.segments.filter counts with
    | nil => rfl
    | cons s rest =>
        rw [List.map_cons, List.head?_cons]
        simp [(ofSegment_ne s).1]

section Same

variable {p q : Path} (h : p.components = q.components)
include h

theorem fileName?_congr : p.fileName? = q.fileName? := by
  rw [fileName?_eq, fileName?_eq, h]

theorem directoryName?_congr : p.directoryName? = q.directoryName? := by
  rw [directoryName?_eq, directoryName?_eq, h]

theorem fileStem?_congr : p.fileStem? = q.fileStem? := by
  rw [fileStem?, fileStem?, fileName?_congr h]

theorem extension?_congr : p.extension? = q.extension? := by
  rw [extension?, extension?, fileName?_congr h]

theorem isAbsolute_congr : p.isAbsolute = q.isAbsolute := by
  rw [isAbsolute_eq_isRooted, isAbsolute_eq_isRooted, h]

theorem filter_segments_congr : p.segments.filter counts = q.segments.filter counts := by
  rw [filter_segments_eq, filter_segments_eq, h]

end Same

end Path
end ResourceStubs
