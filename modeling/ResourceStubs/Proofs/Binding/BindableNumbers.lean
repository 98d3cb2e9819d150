import ResourceStubs.Proofs.Binding.BindableNames
import ResourceStubs.Proofs.Java.NameSpelling
import ResourceStubs.Proofs.Java.SourceLines

/-!
# The numbers in `BR`

The class `BR` has the constant `_all`, and behind it one constant for each name of a bindable
(`render_eq`).  `constants_numbered` says what they are: the names ascend strictly, they are
the names of the bindables and no others, and their numbers go up from one without a gap.

The constant `_all` stays apart from them, for the name of a bindable is in camel case, and
that has no underscore.  And since the names ascend, they are all that the class depends on:
neither the order nor the repetition of layouts and of their bindables is seen in it.
-/

namespace ResourceStubs
namespace BrClass

open Java

/-- The declaration of a name with its number. -/
def constant (numbered : String × Nat) : String :=
  "public static int " ++ numbered.1 ++ " = " ++ toString numbered.2 ++ ";"

theorem declarations_eq (first : Nat) (l : List String) :
    declarations first l = (l.zipIdx first).map constant := by
  induction l generalizing first with
  | nil => rfl
  | cons name rest ih =>
      rw [declarations, ih, List.zipIdx_cons, List.map_cons]
      rfl

/-- **The class `BR` is the list of its constants.** -/
theorem render_eq (package : String) (layouts : List LayoutData) :
    render package layouts = ⟨package, "BR", SourceText.blockText 0 "public class BR"
      ("public static final int _all = 0;" :: ((names layouts).zipIdx 1).map constant)⟩ := by
  have hlines : ∀ s : SourceText,
      (s.line "public static final int _all = 0;").lines (declarations 1 (names layouts)) =
        s.lines ("public static final int _all = 0;" :: declarations 1 (names layouts)) :=
    fun _ => rfl
  rw [render, hlines, SourceText.closeBlock_lines_openBlock, declarations_eq]
  exact congrArg _ (String.empty_append)

/-- No name of a bindable is that of the constant for all of them. -/
theorem all_notMem_names (layouts : List LayoutData) : "_all" ∉ names layouts := by
  intro h
  obtain ⟨-, -, b, -, hname⟩ := mem_names_iff.1 h
  refine underscore_notMem_camelCase b.rawName ?_
  rw [← Binding.name, hname]
  decide

/-- **The constants of `BR` number the names of the bindables.**  Behind `_all` they stand in
the strict order of their names, which are those of all bindables of all layouts and not
`_all`, and their numbers are one, two, three and so on.  Layouts that have the same bindables
among them, in whatever order and however often, get the same class. -/
theorem constants_numbered (package : String) (layouts : List LayoutData) :
    ∃ numbered : List String,
      render package layouts = ⟨package, "BR", SourceText.blockText 0 "public class BR"
        ("public static final int _all = 0;" :: (numbered.zipIdx 1).map constant)⟩ ∧
      numbered.Pairwise (· < ·) ∧
      (∀ name, name ∈ numbered ↔ ∃ d ∈ layouts, ∃ b ∈ d.bindables, b.name = name) ∧
      "_all" ∉ numbered ∧
      ∀ again : List LayoutData,
        (∀ b, (∃ d ∈ again, b ∈ d.bindables) ↔ ∃ d ∈ layouts, b ∈ d.bindables) →
          render package again = render package layouts := by
  refine ⟨names layouts, render_eq package layouts, pairwise_names layouts,
    fun _ => mem_names_iff, all_notMem_names layouts, fun again h => ?_⟩
  refine render_congr package fun name => ⟨?_, ?_⟩
  · rintro ⟨d, hd, b, hb, hname⟩
    obtain ⟨d', hd', hb'⟩ := (h b).1 ⟨d, hd, hb⟩
    exact ⟨d', hd', b, hb', hname⟩
  · rintro ⟨d, hd, b, hb, hname⟩
    obtain ⟨d', hd', hb'⟩ := (h b).2 ⟨d, hd, hb⟩
    exact ⟨d', hd', b, hb', hname⟩

/-- A layout with variables that have the given names. -/
def withVariables (layout : String) (rawNames : List String) : LayoutData :=
  { LayoutData.empty layout with
    bindables := rawNames.map fun rawName => ⟨rawName, .primitive "int", .variable⟩ }

/-- One layout says `view_model` where the other says `viewModel`. -/
def twoSpellings : List LayoutData :=
  [withVariables "main" ["view_model", "user"], withVariables "item" ["viewModel"]]

/-- The same layouts turned around and with repetitions. -/
def twoSpellingsAgain : List LayoutData :=
  [withVariables "item" ["viewModel"], withVariables "main" ["user", "view_model", "user"],
    withVariables "item" ["viewModel"]]

/-- The two spellings have one number, and the order of the layouts does not matter. -/
theorem constants_numbered_twoSpellings :
    (render "p" twoSpellings).body =
      "public class BR \x7b\n  public static final int _all = 0;\n" ++
        "  public static int user = 1;\n  public static int viewModel = 2;\n\x7d\n" ∧
    render "p" twoSpellingsAgain = render "p" twoSpellings := by
  refine ⟨by decide +kernel, ?_⟩
  obtain ⟨numbered, -, -, -, -, hagain⟩ := constants_numbered "p" twoSpellings
  refine hagain _ fun b => ?_
  simp only [twoSpellings, twoSpellingsAgain, withVariables,
    List.map_cons, List.map_nil, List.mem_cons, List.not_mem_nil]
  grind

end BrClass
end ResourceStubs
