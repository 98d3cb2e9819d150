import ResourceStubs.Proofs.Symbol.OrderedUnion
import ResourceStubs.Proofs.Text.Words

/-!
# Lines of dependencies extend a table

Lines come in after everything of the module itself has been merged and resized, one
after the other, and each of them does one of three things.  A blank line does nothing, a
line with three words of which the second is the name of a kind adds a symbol, and any
other line stops the run (`SymbolLine.IsSound`, `SymbolLine.Fault`).

What a line adds stands behind what is there: a symbol that the module declares stays as
it is, and so do the members of every group.  `dependencies_extend` says so of the whole
collection, together with what happens when lines are kept out, when one of them is bad
and when lines come again.
-/

namespace ResourceStubs

/-! ## One line -/

namespace SymbolLine

/-- The line has three words; the second is the name of a kind, and the third is the
name. -/
def Names (line : String) (kind : ResourceKind) (name : String) : Prop :=
  ∃ typeWord kindWord nameWord rest,
    Text.words line.toList = typeWord :: kindWord :: nameWord :: rest ∧
      ResourceKind.ofName? (String.ofList kindWord) = some kind ∧ name = String.ofList nameWord

/-- Nothing is wrong with the line: it is blank, or it names a symbol. -/
def IsSound (line : String) : Prop :=
  Text.isBlankText line.toList = true ∨ ∃ kind name, Names line kind name

/-- What is wrong with a line: it has a word but not three, or the second of its words is
not the name of a kind. -/
inductive Fault (line : String) : Failure → Prop
  | tooShort (hblank : Text.isBlankText line.toList = false)
      (hwords : (Text.words line.toList).length < 3) : Fault line (.malformedLine line)
  | unknownKind {typeWord kindWord nameWord : List Char} {rest : List (List Char)}
      (hwords : Text.words line.toList = typeWord :: kindWord :: nameWord :: rest)
      (hkind : ResourceKind.ofName? (String.ofList kindWord) = none) :
      Fault line (.unknownKind (String.ofList kindWord))

/-- The symbol of a line, if it has one. -/
def symbol? (line : String) : Option SymbolEntry :=
  match read line with
  | .ok e => e
  | .error _ => none

variable {line : String}

theorem isSound_or_fault (line : String) : IsSound line ∨ ∃ f, Fault line f := by
  cases hblank : Text.isBlankText line.toList with
  | true => exact Or.inl (Or.inl hblank)
  | false =>
      by_cases hlt : (Text.words line.toList).length < 3
      · exact Or.inr ⟨_, .tooShort hblank hlt⟩
      · rcases hwords : Text.words line.toList with _ | ⟨w₁, _ | ⟨w₂, _ | ⟨w₃, rest⟩⟩⟩ <;>
          simp only [hwords, List.length_cons, List.length_nil] at hlt <;> try omega
        cases hkind : ResourceKind.ofName? (String.ofList w₂) with
        | none => exact Or.inr ⟨_, .unknownKind hwords hkind⟩
        | some kind => exact Or.inl (Or.inr ⟨kind, _, w₁, w₂, w₃, rest, hwords, hkind, rfl⟩)

theorem read_of_isBlankText (h : Text.isBlankText line.toList = true) : read line = .ok none := by
  rw [read, (Text.words_eq_nil_iff _).2 h]

theorem Names.exists_read_eq {kind : ResourceKind} {name : String} (h : Names line kind name) :
    ∃ e, read line = .ok (some e) ∧ e.kind = kind ∧ e.name = name := by
  obtain ⟨w₁, w₂, w₃, rest, hwords, hkind, rfl⟩ := h
  rw [read, hwords]
  dsimp only
  rw [hkind]
  dsimp only
  split
  · exact ⟨_, rfl, rfl, rfl⟩
  · exact ⟨_, rfl, rfl, rfl⟩

theorem Fault.read_eq {f : Failure} (h : Fault line f) : read line = .error f := by
  cases h with
  | tooShort hblank hlt =>
      rcases hwords : Text.words line.toList with _ | ⟨w₁, _ | ⟨w₂, _ | ⟨w₃, rest⟩⟩⟩
      · rw [(Text.words_eq_nil_iff _).1 hwords] at hblank
        exact absurd hblank (by decide)
      · rw [read, hwords]
      · rw [read, hwords]
      · rw [hwords] at hlt
        simp only [List.length_cons] at hlt
        omega
  | unknownKind hwords hkind =>
      rw [read, hwords]
      dsimp only
      rw [hkind]

theorem IsSound.read_eq (h : IsSound line) : read line = .ok (symbol? line) := by
  rw [symbol?]
  rcases h with hblank | ⟨kind, name, hnames⟩
  · rw [read_of_isBlankText hblank]
  · obtain ⟨e, he, -⟩ := hnames.exists_read_eq
    rw [he]

/-- **A line is read exactly if nothing is wrong with it.** -/
theorem read_eq_ok_iff {e : Option SymbolEntry} :
    read line = .ok e ↔ IsSound line ∧ e = symbol? line := by
  constructor
  · intro h
    rcases isSound_or_fault line with hsound | ⟨f, hf⟩
    · exact ⟨hsound, Except.ok.inj (h.symm.trans hsound.read_eq)⟩
    · rw [hf.read_eq] at h
      cases h
  · rintro ⟨hsound, rfl⟩
    exact hsound.read_eq

/-- **A line fails with what is wrong with it.** -/
theorem read_eq_error_iff {f : Failure} : read line = .error f ↔ Fault line f := by
  refine ⟨fun h => ?_, Fault.read_eq⟩
  rcases isSound_or_fault line with hsound | ⟨g, hg⟩
  · rw [hsound.read_eq] at h
    cases h
  · rw [hg.read_eq] at h
    exact Except.error.inj h ▸ hg

/-- A line that names a symbol is one that has it. -/
theorem names_iff {kind : ResourceKind} {name : String} :
    Names line kind name ↔ ∃ e, symbol? line = some e ∧ e.kind = kind ∧ e.name = name := by
  constructor
  · intro h
    obtain ⟨e, hread, hkey⟩ := h.exists_read_eq
    exact ⟨e, by rw [symbol?, hread], hkey⟩
  · rintro ⟨e, he, rfl, rfl⟩
    have hread : read line = .ok (some e) := by
      rcases isSound_or_fault line with hsound | ⟨f, hf⟩
      · rw [hsound.read_eq, he]
      · rw [symbol?, hf.read_eq] at he
        cases he
    rcases (read_eq_ok_iff.1 hread).1 with hblank | ⟨kind, name, hnames⟩
    · rw [read_of_isBlankText hblank] at hread
      cases hread
    · obtain ⟨e', hread', rfl, rfl⟩ := hnames.exists_read_eq
      rw [hread] at hread'
      obtain rfl : e = e' := Option.some.inj (Except.ok.inj hread')
      exact hnames

end SymbolLine

/-! ## Many lines -/

namespace SymbolTable

variable {t : SymbolTable}

/-- One more line, of which nothing is wrong. -/
def insertLine (t : SymbolTable) (line : String) : SymbolTable :=
  (SymbolLine.symbol? line).elim t t.insert

theorem addLine_eq_ok_iff (t : SymbolTable) (line : String) (u : SymbolTable) :
    t.addLine line = .ok u ↔ SymbolLine.IsSound line ∧ u = t.insertLine line := by
  rw [addLine, bind_eq_ok_iff]
  constructor
  · rintro ⟨e, he, hu⟩
    obtain ⟨hsound, rfl⟩ := SymbolLine.read_eq_ok_iff.1 he
    refine ⟨hsound, ?_⟩
    rw [insertLine]
    cases hentry : SymbolLine.symbol? line with
    | none =>
        rw [hentry] at hu
        exact (Except.ok.inj hu).symm
    | some e =>
        rw [hentry] at hu
        exact (Except.ok.inj hu).symm
  · rintro ⟨hsound, rfl⟩
    refine ⟨_, hsound.read_eq, ?_⟩
    rw [insertLine]
    cases SymbolLine.symbol? line <;> rfl

theorem addLine_eq_error_iff (t : SymbolTable) (line : String) (f : Failure) :
    t.addLine line = .error f ↔ SymbolLine.Fault line f := by
  rw [← SymbolLine.read_eq_error_iff, addLine]
  cases h : SymbolLine.read line with
  | error g =>
      exact ⟨fun hg => congrArg _ (Except.error.inj hg), fun hg => congrArg _ (Except.error.inj hg)⟩
  | ok e => cases e <;> exact ⟨fun hg => (by cases hg), fun hg => (by cases hg)⟩

theorem foldl_insertLine (t : SymbolTable) (lines : List String) :
    lines.foldl insertLine t = (lines.filterMap SymbolLine.symbol?).foldl insert t := by
  induction lines generalizing t with
  | nil => rfl
  | cons line lines ih =>
      rw [List.foldl_cons, ih, List.filterMap_cons, insertLine]
      cases SymbolLine.symbol? line <;> rfl

/-- A symbol whose key is there already changes nothing. -/
theorem insert_eq_self (ht : t.WellFormed) {e : SymbolEntry}
    (h : (t.get? e.kind e.name).isSome) : t.insert e = t := by
  refine (ht.insert e).ext ht (fun kind name => ?_) fun group => rfl
  rw [get?_insert ht]
  split
  · rename_i hkey
    rw [← hkey.1, ← hkey.2, Option.or_of_isSome h]
  · exact Option.or_none

end SymbolTable

namespace Collect

open SymbolTable

variable {t u : SymbolTable} {lines : List String}

/-- **Lines come in when nothing is wrong with any of them**, one symbol after the
other. -/
theorem addLines_eq_ok_iff : addLines t lines = .ok u ↔
    (∀ line ∈ lines, SymbolLine.IsSound line) ∧
      u = (lines.filterMap SymbolLine.symbol?).foldl insert t := by
  rw [← foldl_insertLine]
  exact foldlM_eq_ok_iff addLine_eq_ok_iff

/-- **The first bad line is the one that is reported.** -/
theorem addLines_eq_error_iff {f : Failure} : addLines t lines = .error f ↔
    ∃ before line after, lines = before ++ line :: after ∧
      (∀ x ∈ before, SymbolLine.IsSound x) ∧ SymbolLine.Fault line f :=
  foldlM_eq_error_iff addLine_eq_ok_iff addLine_eq_error_iff

/-- A line that has come before changes nothing. -/
theorem addLine_eq_self (ht : t.WellFormed) (h : addLines t lines = .ok u) {line : String}
    (hline : line ∈ lines) : u.addLine line = .ok u := by
  obtain ⟨hsound, rfl⟩ := addLines_eq_ok_iff.1 h
  refine (addLine_eq_ok_iff _ _ _).2 ⟨hsound line hline, ?_⟩
  rw [insertLine]
  cases he : SymbolLine.symbol? line with
  | none => rfl
  | some e =>
      refine (insert_eq_self (wellFormed_foldl_insert ht _) ?_).symm
      have hmem : e ∈ lines.filterMap SymbolLine.symbol? :=
        List.mem_filterMap.2 ⟨line, hline, he⟩
      rw [get?_foldl_insert ht, Option.isSome_or, Bool.or_eq_true]
      exact Or.inr (List.find?_isSome.2 ⟨e, hmem, by simp⟩)

theorem addLines_append (t : SymbolTable) (before after : List String) :
    addLines t (before ++ after) = addLines t before >>= (addLines · after) :=
  List.foldlM_append

/-- Lines that have come before may be left out. -/
theorem addLines_distinct (ht : t.WellFormed) (known lines : List String) :
    addLines t (lines.foldl Contribution.pushNew known) = addLines t (known ++ lines) := by
  induction lines generalizing known with
  | nil => rw [List.foldl_nil, List.append_nil]
  | cons line lines ih =>
      rw [List.foldl_cons, ih, Contribution.pushNew]
      split
      · rename_i hmem
        rw [addLines_append, addLines_append]
        cases h : addLines t known with
        | error f => rfl
        | ok u =>
            show addLines u lines = u.addLine line >>= (addLines · lines)
            rw [addLine_eq_self ht h hmem]
            rfl
      · rw [List.append_assoc, List.singleton_append]

/-- Tables in which the lines have the same first occurrences are equal. -/
theorem addLines_congr (ht : t.WellFormed) {again : List String}
    (h : Contribution.distinct again = Contribution.distinct lines) :
    addLines t again = addLines t lines := by
  have hagain := addLines_distinct ht [] again
  have hlines := addLines_distinct ht [] lines
  rw [List.nil_append] at hagain hlines
  rw [← hagain, ← hlines]
  exact congrArg (addLines t) h

/-! ## The whole collection -/

theorem wellFormed_merged (tables : List (Path × SymbolTable)) : (merged tables).WellFormed := by
  have hrun : ∀ (l : List (Path × SymbolTable)) (u : SymbolTable), u.WellFormed →
      (l.foldl (fun t part => t.merge part.2) u).WellFormed := by
    intro l
    induction l with
    | nil => exact fun u hu => hu
    | cons x l ih => exact fun u hu => ih _ (hu.merge x.2)
  exact hrun _ _ wellFormed_empty

/-- Whatever is collected is well formed. -/
theorem wellFormed_all {registry : Registry} {nonTransitive : Bool} {tree : Tree}
    {files : List Path} (h : all registry nonTransitive tree files lines = .ok t) :
    t.WellFormed := by
  obtain ⟨tables, -, h⟩ := bind_eq_ok_iff.1 h
  have hown := (wellFormed_merged tables).resize
  split at h
  · rwa [← Except.ok.inj h]
  · exact foldlM_induction h hown fun u hu line _ v hv => hu.addLine hv

/-- What is collected from files alone is well formed, and lines come in behind it. -/
theorem all_eq_addLines {registry : Registry} {tree : Tree} {files : List Path}
    (h : all registry false tree files [] = .ok t) : t.WellFormed ∧
      (∀ lines, all registry true tree files lines = .ok t) ∧
      ∀ lines, all registry false tree files lines = addLines t lines := by
  obtain ⟨tables, htables, hown⟩ := bind_eq_ok_iff.1 h
  have ht : (merged tables).resize = t := Except.ok.inj hown
  refine ⟨ht ▸ (wellFormed_merged tables).resize, fun lines => ?_, fun lines => ?_⟩
  · refine bind_eq_ok_iff.2 ⟨tables, htables, ?_⟩
    rw [ht]
    rfl
  · rw [all, htables, ← ht]
    rfl

/-- **The symbols of dependencies extend those of the module.**  Let `own` be the table of
the files alone.

Where the symbols of dependencies are kept out, the table is `own`, whatever the lines
are.  Otherwise the collection succeeds exactly if nothing is wrong with any line, and
else it reports the first bad one.  Where it succeeds, the members of all groups are those
of `own`, and so are its symbols; every other symbol is that of the first line that names
it.  Lines that come again change nothing, wherever they come. -/
theorem dependencies_extend {registry : Registry} {tree : Tree} {files : List Path}
    {own : SymbolTable} (h : all registry false tree files [] = .ok own) (lines : List String) :
    all registry true tree files lines = .ok own ∧
    ((∃ t, all registry false tree files lines = .ok t) ↔
      ∀ line ∈ lines, SymbolLine.IsSound line) ∧
    (∀ f, all registry false tree files lines = .error f ↔
      ∃ before line after, lines = before ++ line :: after ∧
        (∀ x ∈ before, SymbolLine.IsSound x) ∧ SymbolLine.Fault line f) ∧
    (∀ t, all registry false tree files lines = .ok t →
      (∀ group, t.members? group = own.members? group) ∧
      ∀ kind name, t.get? kind name = (own.get? kind name).or
        ((lines.filterMap SymbolLine.symbol?).find? fun e => e.kind = kind ∧ e.name = name)) ∧
    ∀ again, Contribution.distinct again = Contribution.distinct lines →
      all registry false tree files again = all registry false tree files lines := by
  obtain ⟨hwf, hkept, hall⟩ := all_eq_addLines h
  refine ⟨hkept lines, ?_, fun f => ?_, fun t ht => ?_, fun again hagain => ?_⟩
  · rw [hall]
    constructor
    · rintro ⟨t, ht⟩
      exact (addLines_eq_ok_iff.1 ht).1
    · exact fun hsound => ⟨_, addLines_eq_ok_iff.2 ⟨hsound, rfl⟩⟩
  · rw [hall]
    exact addLines_eq_error_iff
  · rw [hall] at ht
    obtain ⟨-, rfl⟩ := addLines_eq_ok_iff.1 ht
    exact ⟨members?_foldl_insert own _, get?_foldl_insert hwf _⟩
  · rw [hall, hall]
    exact addLines_congr hwf hagain

/-- Behind a group in two files come a blank line, the group once more, and a symbol in two
lines, the second of them with another value. -/
theorem dependencies_extend_splitGroup :
    all .standard false splitGroup [⟨"res/values/a.xml"⟩, ⟨"res/values-v21/a.xml"⟩] [] =
      .ok splitGroupTable ∧
    all .standard true splitGroup [⟨"res/values/a.xml"⟩, ⟨"res/values-v21/a.xml"⟩]
      ["int widget w 0"] = .ok splitGroupTable ∧
    all .standard false splitGroup [⟨"res/values/a.xml"⟩, ⟨"res/values-v21/a.xml"⟩]
      [" ", "int string s 1", "int widget w 0", "int"] = .error (.unknownKind "widget") ∧
    ∃ t, all .standard false splitGroup [⟨"res/values/a.xml"⟩, ⟨"res/values-v21/a.xml"⟩]
        [" ", "int styleable S 0", "int string s 1", "int[] String s \x7b 1 \x7d"] = .ok t ∧
      t.members? "S" = some ["x", "y"] ∧
      t.get? .styleable "S" = some (.array .styleable "S" "\x7b 0, 0 \x7d") ∧
      t.get? .string "s" = some (.scalar .string "s") := by
  have hown := all_splitGroup_lines []
  have hlines := all_splitGroup_lines
    [" ", "int styleable S 0", "int string s 1", "int[] String s \x7b 1 \x7d"]
  have hsound : ∀ line ∈ [" ", "int string s 1"], SymbolLine.IsSound line := by
    intro line hline
    rcases List.mem_pair.1 hline with rfl | rfl
    · exact Or.inl (by decide)
    · exact Or.inr ⟨.string, "s", _, _, _, _, rfl, by decide, rfl⟩
  obtain ⟨hkept, -, -, -, -⟩ := dependencies_extend hown ["int widget w 0"]
  obtain ⟨-, -, herror, -, -⟩ :=
    dependencies_extend hown [" ", "int string s 1", "int widget w 0", "int"]
  obtain ⟨-, -, -, hextend, -⟩ := dependencies_extend hown
    [" ", "int styleable S 0", "int string s 1", "int[] String s \x7b 1 \x7d"]
  refine ⟨hown, hkept, (herror _).2 ⟨_, _, _, rfl, hsound, .unknownKind rfl (by decide)⟩, ?_⟩
  obtain ⟨hmembers, hget⟩ := hextend _ hlines
  exact ⟨_, hlines, hmembers "S", (hget _ _).trans (by decide +kernel),
    (hget _ _).trans (by decide +kernel)⟩

end Collect
end ResourceStubs
