import ResourceStubs.Proofs.Java.SideBySide

/-!
# Which commas separate type arguments

Of the two commas in `Map<String, Integer>, Foo`, only the one outside all brackets separates
arguments.  The reader goes through the text once and follows the number of brackets that are
open, which is below zero where more have been closed than opened.  That number counts all of
the text in front, over the pieces that have been cut off already, whereas a comma that is left
inside a piece is judged by what stands in front of it there.  The two counts agree, since a
piece is only cut off where everything is closed.

* `splitArguments_append`: behind a text the reader goes on with the last piece of it.
* `exists_closed_splitArguments`: so character by character all pieces but the last are closed,
  and the last is as deep as the whole text.
* `splitArguments_append_comma_iff`: hence a comma is a cut if and only if the text in front of
  it closes as many brackets as it opens.
* `splitArguments_at_outer_commas`: what the pieces are, put together again and one by one.
-/

namespace ResourceStubs
namespace JavaType

open Text

variable {cs tail first last before after : List Char} {front others : List (List Char)}

/-! ## Reading on -/

theorem exists_splitArgumentsFrom_append {depth : Int}
    (htail : splitArgumentsFrom (depth + netDepth cs) tail = first :: others) :
    ∃ front last, splitArgumentsFrom depth cs = front ++ [last] ∧
      splitArgumentsFrom depth (cs ++ tail) = front ++ (last ++ first) :: others := by
  induction cs generalizing depth with
  | nil =>
      rw [netDepth_nil, Int.add_zero] at htail
      exact ⟨[], [], rfl, htail⟩
  | cons c cs ih =>
      rw [netDepth_cons, ← Int.add_assoc] at htail
      obtain ⟨front, last, hcs, happend⟩ := ih htail
      by_cases hcomma : c = ',' ∧ depth = 0
      · obtain ⟨rfl, rfl⟩ := hcomma
        refine ⟨[] :: front, last, ?_, ?_⟩
        · rw [splitArgumentsFrom, if_pos ⟨rfl, rfl⟩, List.cons_append, ← hcs]
          rfl
        · rw [List.cons_append, splitArgumentsFrom, if_pos ⟨rfl, rfl⟩, List.cons_append, ← happend]
          rfl
      · -- the character goes to the first piece, which is the last one if there is no other
        cases front with
        | nil =>
            refine ⟨[], withoutBlanks [c] ++ last, splitArgumentsFrom_cons hcomma hcs, ?_⟩
            rw [List.append_assoc]
            exact splitArgumentsFrom_cons hcomma happend
        | cons piece front =>
            exact ⟨(withoutBlanks [c] ++ piece) :: front, last,
              splitArgumentsFrom_cons hcomma hcs, splitArgumentsFrom_cons hcomma happend⟩

/-- **Behind a text the reader goes on with the last piece of it**, from the depth at which the
text ends. -/
theorem splitArguments_append (hcs : splitArguments cs = front ++ [last])
    (htail : splitArgumentsFrom (netDepth cs) tail = first :: others) :
    splitArguments (cs ++ tail) = front ++ (last ++ first) :: others := by
  rw [← Int.zero_add (netDepth cs)] at htail
  obtain ⟨pieces, piece, hpieces, happend⟩ := exists_splitArgumentsFrom_append htail
  obtain ⟨rfl, hpiece⟩ := List.append_inj' (hcs.symm.trans hpieces) rfl
  rw [List.singleton_inj.1 hpiece]
  exact happend

/-- One character more, if it is a cut. -/
theorem splitArguments_concat_comma (hcs : splitArguments cs = front ++ [last])
    (hdepth : netDepth cs = 0) : splitArguments (cs ++ [',']) = front ++ [last] ++ [[]] := by
  have htail : splitArgumentsFrom (netDepth cs) [','] = [] :: [[]] := by
    rw [hdepth]
    rfl
  rw [splitArguments_append hcs htail, List.append_nil, List.append_cons]

/-- One character more, if it is none. -/
theorem splitArguments_concat (hcs : splitArguments cs = front ++ [last]) {c : Char}
    (hcomma : ¬(c = ',' ∧ netDepth cs = 0)) :
    splitArguments (cs ++ [c]) = front ++ [last ++ withoutBlanks [c]] := by
  have hnil : splitArgumentsFrom (netDepth cs + bracketStep c) [] = [] :: [] := rfl
  have htail := splitArgumentsFrom_cons hcomma hnil
  rw [List.append_nil] at htail
  exact splitArguments_append hcs htail

/-- **All pieces but the last are closed**, and the last is as deep as the whole text. -/
theorem exists_closed_splitArguments (cs : List Char) :
    ∃ front last, splitArguments cs = front ++ [last] ∧
      (∀ piece ∈ front, netDepth piece = 0) ∧ netDepth last = netDepth cs := by
  -- from left to right, as the reader goes: the last piece is the one that is not finished
  induction cs using List.reverseRecOn with
  | nil => exact ⟨[], [], rfl, by simp, rfl⟩
  | append_singleton cs c ih =>
      obtain ⟨front, last, hcs, hfront, hlast⟩ := ih
      by_cases hcomma : c = ',' ∧ netDepth cs = 0
      · obtain ⟨rfl, hdepth⟩ := hcomma
        refine ⟨front ++ [last], [], splitArguments_concat_comma hcs hdepth, ?_, ?_⟩
        · rw [List.forall_mem_append, List.forall_mem_singleton, hlast]
          exact ⟨hfront, hdepth⟩
        · rw [netDepth_append, hdepth]
          rfl
      · refine ⟨front, last ++ withoutBlanks [c], splitArguments_concat hcs hcomma, hfront, ?_⟩
        rw [netDepth_append, netDepth_append, hlast, netDepth_withoutBlanks]

/-! ## Where the cuts are -/

/-- **A comma is a cut if and only if all brackets in front of it are closed.** -/
theorem splitArguments_append_comma_iff :
    splitArguments (before ++ ',' :: after) = splitArguments before ++ splitArguments after ↔
      netDepth before = 0 := by
  obtain ⟨front, last, hbefore, -, hlast⟩ := exists_closed_splitArguments before
  constructor
  · intro h
    obtain ⟨others, final, hafter, -, -⟩ := exists_closed_splitArguments after
    obtain ⟨pieces, piece, hpieces, hclosed, -⟩ :=
      exists_closed_splitArguments (before ++ ',' :: after)
    -- the last piece of the text in front is not the last one of the whole
    rw [hpieces, hbefore, hafter, ← List.append_assoc] at h
    obtain ⟨rfl, -⟩ := List.append_inj' h rfl
    rw [← hlast]
    exact hclosed last (by simp)
  · intro hdepth
    have htail : splitArgumentsFrom (netDepth before) (',' :: after) =
        [] :: splitArguments after := by
      rw [hdepth, splitArgumentsFrom, if_pos ⟨rfl, rfl⟩]
      rfl
    rw [splitArguments_append hbefore htail, hbefore, List.append_nil, List.append_cons]

-- below zero no comma is a cut, and brackets that are opened there bring the depth back
example : splitArguments "A>, B<, C".toList = ["A>,B<".toList, "C".toList] := by decide

/-- **The arguments are cut at the outer commas.**  There is at least one piece, and the
pieces with commas between them are the text, less its blanks.  No comma in a piece has as
many opening as closing brackets in front of it there, and a comma of the text is a cut if and
only if it has as many of each in front of it.  The brackets of the text are even if and only
if those of every piece are. -/
theorem splitArguments_at_outer_commas (parameters : String) :
    splitArguments parameters.toList ≠ [] ∧
    [','].intercalate (splitArguments parameters.toList) = withoutBlanks parameters.toList ∧
    (∀ piece ∈ splitArguments parameters.toList, ∀ before after,
      piece = before ++ ',' :: after → before.count '<' ≠ before.count '>') ∧
    (∀ before after, parameters.toList = before ++ ',' :: after →
      (splitArguments parameters.toList = splitArguments before ++ splitArguments after ↔
        before.count '<' = before.count '>')) ∧
    (¬UnevenBrackets parameters.toList ↔
      ∀ piece ∈ splitArguments parameters.toList, ¬UnevenBrackets piece) := by
  refine ⟨splitArgumentsFrom_ne_nil 0 _, intercalate_splitArguments _, ?_, ?_, ?_⟩
  · intro piece hpiece before after heq heven
    refine (isPiece_of_mem_splitArguments hpiece).no_outer_comma before after heq ?_
    rw [netDepth_eq_zero_iff.2 heven]
    rfl
  · intro before after heq
    rw [heq, splitArguments_append_comma_iff, netDepth_eq_zero_iff]
  · simp only [unevenBrackets_iff, Bool.not_eq_false]
    exact balanced_iff_forall_pieces _

/-- The comma between the arguments of a map is kept, and the one behind the map is a cut. -/
theorem splitArguments_at_outer_commas_mapAndClass :
    splitArguments "Map<A, B> , C".toList ≠
      splitArguments "Map<A".toList ++ splitArguments " B> , C".toList ∧
    splitArguments "Map<A, B> , C".toList =
      splitArguments "Map<A, B> ".toList ++ splitArguments " C".toList ∧
    ∀ piece ∈ splitArguments "Map<A, B> , C".toList, ¬UnevenBrackets piece := by
  obtain ⟨-, -, -, hcut, heven⟩ := splitArguments_at_outer_commas "Map<A, B> , C"
  refine ⟨fun h => ?_, (hcut _ _ (by decide)).2 (by decide), heven.1 (by decide)⟩
  exact absurd ((hcut _ _ (by decide)).1 h) (by decide)

end JavaType
end ResourceStubs
