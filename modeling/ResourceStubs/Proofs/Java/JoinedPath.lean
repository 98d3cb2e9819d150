import ResourceStubs.Proofs.Java.SourcePath

/-!
# Where a source file stands

A relative path that is joined to a directory adds its steps to the components of the
directory (`components_join`), and an absolute one takes its place.  A source file has one
directory for each segment of its package.  What comes behind them is the path that the
name of the type makes: one name, as long as there is no slash in it
(`components_pathBelow_of_notMem`), and otherwise whatever steps its text has
(`components_pathBelow`), up to the root of the tree (`pathBelow_of_isAbsolute`).
-/

namespace ResourceStubs

namespace Path

/-- The components that a path has by its segments, whatever it starts from. -/
def steps (p : Path) : List Component :=
  (p.segments.filter counts).map Component.ofSegment

/-- A text that can be a name in a path: it has no slash in it, and it is no step of
another kind. -/
structure IsName (text : String) : Prop where
  notMem : '/' ∉ text.toList
  counts : ¬isIdle text = true
  ne_up : text ≠ ".."

variable {p q : Path}

/-- No name in a path has a slash in it. -/
theorem notMem_of_name_mem_components {text : String} (h : .name text ∈ p.components) :
    '/' ∉ text.toList := by
  rw [components_eq, List.mem_append] at h
  rcases h with h | h
  · rcases lead_cases p with ⟨-, hlead⟩ | ⟨-, -, hlead⟩ | ⟨-, -, hlead⟩ <;> rw [hlead] at h <;>
      exact absurd h (by simp)
  · obtain ⟨segment, hsegment, hname⟩ := List.mem_map.1 h
    have hsome := congrArg Component.segment? hname
    rw [Component.segment?_ofSegment] at hsome
    obtain rfl : segment = text := Option.some.inj hsome
    exact notMem_of_mem_segments (List.mem_filter.1 hsegment).1

theorem lead_eq_nil_of_components {text : String} {rest : List Component}
    (h : p.components = .name text :: rest) : p.lead = [] := by
  rw [components_eq] at h
  rcases lead_cases p with ⟨-, hlead⟩ | ⟨-, -, hlead⟩ | ⟨-, -, hlead⟩
  · rw [hlead] at h
    exact absurd (List.cons.inj h).1 (by simp)
  · rw [hlead] at h
    exact absurd (List.cons.inj h).1 (by simp)
  · exact hlead

theorem isAbsolute_of_lead (h : p.lead = []) : p.isAbsolute = false := by
  rcases lead_cases p with ⟨-, hlead⟩ | ⟨-, -, hlead⟩ | ⟨habs, -, -⟩
  · rw [hlead] at h
    exact absurd h (by simp)
  · rw [hlead] at h
    exact absurd h (by simp)
  · exact habs

theorem IsName.segments {text : String} (h : IsName text) : segments ⟨text⟩ = [text] := by
  rw [Path.segments, Text.pieces_of_notMem h.notMem]
  simp

theorem IsName.steps {text : String} (h : IsName text) : steps ⟨text⟩ = [.name text] := by
  have hcounts : Path.counts text = true := by
    rw [Path.counts, Bool.not_eq_true', ← Bool.not_eq_true]
    exact h.counts
  rw [Path.steps, h.segments, List.filter_cons_of_pos hcounts, List.filter_nil,
    List.map_singleton, Component.ofSegment, if_neg h.ne_up]

theorem IsName.lead {text : String} (h : IsName text) : lead ⟨text⟩ = [] := by
  have habs : isAbsolute ⟨text⟩ = false :=
    beq_eq_false_iff_ne.2 fun hhead => h.notMem (List.mem_of_head? hhead)
  have hdot : (Path.segments ⟨text⟩).head? ≠ some "." := by
    rw [h.segments, List.head?_cons, Ne, Option.some.injEq]
    rintro rfl
    exact h.counts (by decide)
  rw [Path.lead, habs, if_neg (by simp), if_neg hdot]

/-! ## Joining -/

/-- Behind the front of a path that is not empty, segments are put to those of the path.  An
empty one at the end of the path is passed over. -/
theorem exists_segments_front (hp : p.text ≠ "") : ∃ segs, segs ≠ [] ∧
    (p.segments = segs ∨ p.segments = segs ++ [""]) ∧
    ∀ text, segments ⟨p.front ++ text⟩ = segs ++ segments ⟨text⟩ := by
  by_cases hlast : p.text.toList.getLast? = some '/'
  · obtain ⟨before, hbefore⟩ := List.getLast?_eq_some_iff.1 hlast
    refine ⟨(Text.pieces '/' before).map String.ofList,
      by simpa using Text.pieces_ne_nil '/' before, Or.inr ?_, fun text => ?_⟩
    · rw [segments, hbefore, Text.pieces_append, List.map_append]
      rfl
    · rw [segments, front, if_pos (Or.inr hlast), String.toList_append, hbefore,
        List.append_assoc, List.singleton_append, Text.pieces_append, List.map_append]
      rfl
  · refine ⟨p.segments, by simpa [segments] using Text.pieces_ne_nil '/' p.text.toList,
      Or.inl rfl, fun text => ?_⟩
    have hempty : ¬(p.text.isEmpty = true ∨ p.text.toList.getLast? = some '/') := by
      rw [String.isEmpty_iff, not_or]
      exact ⟨hp, hlast⟩
    have hslash : (p.text ++ "/" ++ text).toList = p.text.toList ++ '/' :: text.toList := by
      rw [String.toList_append, String.toList_append, List.append_assoc]
      rfl
    rw [segments, front, if_neg hempty, hslash, Text.pieces_append, List.map_append]
    rfl

theorem head?_toList_front (hp : p.text ≠ "") (text : String) :
    (p.front ++ text).toList.head? = p.text.toList.head? := by
  have hne : p.text.toList ≠ [] := fun h => hp (String.toList_eq_nil_iff.1 h)
  obtain ⟨c, cs, hcs⟩ := List.exists_cons_of_ne_nil hne
  rw [front]
  split
  · rw [String.toList_append, hcs]
    rfl
  · rw [String.toList_append, String.toList_append, hcs]
    rfl

/-- **A relative path adds its steps.**  To the empty path it also adds what it starts from,
if that is the current directory. -/
theorem components_join (hq : q.isAbsolute = false) (h : p.text ≠ "" ∨ q.lead = []) :
    (p.join q).components = p.components ++ q.steps := by
  by_cases hp : p.text = ""
  · obtain rfl : p = ⟨""⟩ := by rw [← hp]
    have hjoin : join ⟨""⟩ q = q := by
      rw [join_of_relative hq]
      exact congrArg Path.mk (String.empty_append)
    rw [hjoin, components_eq q, h.resolve_left (by simp)]
    rfl
  · obtain ⟨segs, hne, hsegs, hjoined⟩ := exists_segments_front hp
    have hcount : p.segments.filter counts = segs.filter counts := by
      rcases hsegs with hsegs | hsegs
      · rw [hsegs]
      · rw [hsegs, List.filter_append, List.filter_cons_of_neg (by decide), List.filter_nil,
          List.append_nil]
    have hhead : (segs ++ q.segments).head? = p.segments.head? := by
      obtain ⟨s, rest, rfl⟩ := List.exists_cons_of_ne_nil hne
      rcases hsegs with hsegs | hsegs <;> rw [hsegs] <;> rfl
    have hlead : lead ⟨p.front ++ q.text⟩ = p.lead := by
      rw [lead, lead, isAbsolute, head?_toList_front hp, hjoined, hhead]
      rfl
    rw [join_of_relative hq, components_eq, hlead, hjoined, List.filter_append,
      List.map_append, ← List.append_assoc, ← hcount, ← components_eq]
    rfl

theorem components_join_name {text : String} (h : IsName text) :
    (p.join ⟨text⟩).components = p.components ++ [.name text] := by
  rw [components_join (isAbsolute_of_lead h.lead) (Or.inr h.lead), h.steps]

theorem components_foldl_join {names : List String} (h : ∀ text ∈ names, IsName text)
    (p : Path) : (names.foldl (fun (p : Path) text => p.join ⟨text⟩) p).components =
      p.components ++ names.map Component.name := by
  induction names generalizing p with
  | nil => rw [List.foldl_nil, List.map_nil, List.append_nil]
  | cons text names ih =>
      rw [List.foldl_cons, ih (fun x hx => h x (List.mem_cons_of_mem _ hx)),
        components_join_name (h text List.mem_cons_self), List.append_assoc, List.map_cons,
        List.singleton_append]

end Path

namespace Java
namespace CompilationUnit

open ResourceStubs.Path

variable {package name body : String} {segs : List String} {dir : Path}

theorem isName_append_java (h : '/' ∉ name.toList) : IsName (name ++ ".java") where
  notMem := notMem_append_java h
  counts := isIdle_append_java name
  ne_up := by
    intro hup
    have hlength : 5 ≤ (name ++ ".java").length := by
      rw [String.length_append]
      exact Nat.le_add_left 5 _
    rw [hup] at hlength
    exact absurd hlength (by decide)

/-- **A source file has a directory for each segment of its package.**  Behind them come
the steps that the name of the type makes. -/
theorem components_pathBelow (hsegs : packageSegments ⟨package, name, body⟩ = segs)
    (hne : segs ≠ []) (hnames : ∀ text ∈ segs, IsName text)
    (hrelative : isAbsolute ⟨name ++ ".java"⟩ = false) :
    (pathBelow ⟨package, name, body⟩ dir).components =
      dir.components ++ segs.map Component.name ++ steps ⟨name ++ ".java"⟩ := by
  have hbase := components_foldl_join hnames ⟨""⟩
  obtain ⟨first, rest, rfl⟩ := List.exists_cons_of_ne_nil hne
  have hempty : components ⟨""⟩ = [] := rfl
  rw [hempty, List.nil_append] at hbase
  have htext : ((first :: rest).foldl (fun (p : Path) text => p.join ⟨text⟩) ⟨""⟩).text ≠ "" := by
    intro htext
    have hnil : (first :: rest).map Component.name = [] := by
      rw [← hbase, components_eq, segments, lead, isAbsolute, segments, htext]
      rfl
    exact absurd hnil (by simp)
  have hpath : (relativePath ⟨package, name, body⟩).components =
      (first :: rest).map Component.name ++ steps ⟨name ++ ".java"⟩ := by
    rw [relativePath, hsegs, components_join hrelative (Or.inl htext), hbase]
  have hlead := lead_eq_nil_of_components hpath
  rw [pathBelow, components_join (isAbsolute_of_lead hlead) (Or.inr hlead), List.append_assoc,
    ← hpath, components_eq (relativePath _), hlead]
  rfl

/-- A name of a type without a slash is one component. -/
theorem components_pathBelow_of_notMem (hsegs : packageSegments ⟨package, name, body⟩ = segs)
    (hne : segs ≠ []) (hnames : ∀ text ∈ segs, IsName text) (hname : '/' ∉ name.toList) :
    (pathBelow ⟨package, name, body⟩ dir).components =
      dir.components ++ (segs ++ [name ++ ".java"]).map Component.name := by
  have hfile := isName_append_java hname
  rw [components_pathBelow hsegs hne hnames (isAbsolute_of_lead hfile.lead), hfile.steps,
    List.append_assoc, List.map_append, List.map_singleton]

/-- A name of a type that begins with a slash is the whole path. -/
theorem pathBelow_of_isAbsolute (h : isAbsolute ⟨name ++ ".java"⟩ = true) :
    pathBelow ⟨package, name, body⟩ dir = ⟨name ++ ".java"⟩ := by
  have hjoin : ∀ p : Path, p.join ⟨name ++ ".java"⟩ = ⟨name ++ ".java"⟩ := fun p => by
    rw [join, if_pos h]
  rw [pathBelow, relativePath, hjoin, hjoin]

end CompilationUnit
end Java
end ResourceStubs
