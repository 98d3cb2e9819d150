import ResourceStubs.Proofs.Text.Words
import ResourceStubs.Symbol.Line

/-!
# Reading symbol lines as they are written

A symbol line is a list of words with blanks between them, and only two things of it are kept
besides the kind and the name: whether brackets stand anywhere in it, and how many words it
has.  Here a line is given by its words (`HasWords`), whatever blanks are used, and
`read_of_hasWords` says what is read.  An array has as many members as values stand between
its braces, even none, and whatever the values are; commas make no difference, since they
are parts of words.

The symbols of a table can be written as such lines (`write`), and then they are read as they
were (`read_write`).
-/

namespace ResourceStubs

/-- A character that has no letter case and is in no name of a kind is in no spelling of one. -/
theorem ResourceKind.notMem_of_sameIgnoringCase {kind : ResourceKind} {text : String} {c : Char}
    (h : Text.sameIgnoringCase kind.name text = true) (hcase : c.toLower = c)
    (hname : c ∉ kind.name.toList.map Char.toLower) : c ∉ text.toList := by
  intro hmem
  have hlower := List.mem_map_of_mem (f := Char.toLower) hmem
  rw [hcase, ← eq_of_beq h] at hlower
  exact hname hlower

theorem ResourceKind.isWord_name (kind : ResourceKind) : Text.IsWord kind.name.toList := by
  cases kind <;> exact .of_any (by decide) (by decide)

namespace SymbolLine

open Text

/-- The line has these words, with blanks around them and between them. -/
def HasWords (line : String) (tokens : List String) : Prop :=
  Spaced (tokens.map String.toList) line.toList

/-- A symbol as a line: its type, its kind, its name and its value. -/
def write (e : SymbolEntry) : String :=
  (if e.isArray then "int[]" else "int") ++ " " ++ e.kind.name ++ " " ++ e.name ++ " " ++ e.value

variable {line kindWord name : String} {typeWord : List Char} {rest : List (List Char)}
  {kind : ResourceKind}

/-- What a line is read as, by its words. -/
theorem read_of_spaced
    (h : Spaced (typeWord :: kindWord.toList :: name.toList :: rest) line.toList)
    (hkind : sameIgnoringCase kind.name kindWord = true) :
    read line = .ok (some (if occursIn ['[', ']'] line.toList then
      .array kind name (placeholderArray (rest.length - 2)) else .scalar kind name)) := by
  have hcount : (typeWord :: kindWord.toList :: name.toList :: rest).length - wordsAroundValues =
      rest.length - 2 := by
    simp only [wordsAroundValues, List.length_cons]
    omega
  rw [read, h.words_eq]
  dsimp only
  rw [String.ofList_toList, String.ofList_toList, ResourceKind.ofName?_eq_some_iff.2 hkind]
  dsimp only
  rw [hcount]
  split <;> rfl

/-- **A line with brackets is an array.**  Two of the words behind its name are braces. -/
theorem read_array (h : Spaced ("int[]".toList :: kindWord.toList :: name.toList :: rest) line.toList)
    (hkind : sameIgnoringCase kind.name kindWord = true) :
    read line = .ok (some (.array kind name (placeholderArray (rest.length - 2)))) := by
  have hbrackets : occursIn ['[', ']'] line.toList = true := by
    rw [occursIn_iff, h.infix_iff (notBlank_of_any (by decide))]
    exact ⟨_, List.mem_cons_self, by decide⟩
  rw [read_of_spaced h hkind, if_pos hbrackets]

/-- **A line without brackets is a scalar**, whatever stands behind its name. -/
theorem read_scalar (h : Spaced ("int".toList :: kindWord.toList :: name.toList :: rest) line.toList)
    (hkind : sameIgnoringCase kind.name kindWord = true)
    (hrest : ∀ word ∈ name.toList :: rest, ¬['[', ']'] <:+: word) :
    read line = .ok (some (.scalar kind name)) := by
  have hbrackets : ¬occursIn ['[', ']'] line.toList = true := by
    rw [occursIn_iff, h.infix_iff (notBlank_of_any (by decide)), List.exists_mem_cons_iff,
      List.exists_mem_cons_iff]
    rintro (htype | hword | ⟨word, hword, hinfix⟩)
    · exact absurd htype (by decide)
    · refine ResourceKind.notMem_of_sameIgnoringCase hkind (c := '[') (by decide) ?_
        (hword.subset List.mem_cons_self)
      cases kind <;> decide
    · exact hrest word hword hinfix
  rw [read_of_spaced h hkind, if_neg hbrackets]

/-! ## Written symbols -/

/-- The zeros of a placeholder are words, and so is the brace behind them. -/
theorem exists_spaced_intercalate (count : Nat) : ∃ values : List (List Char),
    values.length = count + 1 ∧
      Spaced (values ++ [['\x7d']])
        ([',', ' '].intercalate (List.replicate (count + 1) ['0']) ++ [' ', '\x7d']) := by
  have hclose : Spaced [['\x7d']] ['\x7d'] := IsWord.spaced (.of_any (by decide) (by decide))
  have hlast : IsWord ['0'] := .of_any (by decide) (by decide)
  have hother : IsWord ['0', ','] := .of_any (by decide) (by decide)
  induction count with
  | zero => exact ⟨[['0']], rfl, hclose.cons hlast (c := ' ') (by decide)⟩
  | succ count ih =>
      obtain ⟨values, hlength, hspaced⟩ := ih
      refine ⟨['0', ','] :: values, by rw [List.length_cons, hlength], ?_⟩
      rw [List.replicate_succ, List.intercalate_cons_of_ne_nil (by simp)]
      exact hspaced.cons hother (c := ' ') (by decide)

/-- **A placeholder is a word for each member, between two braces.** -/
theorem exists_spaced_placeholderArray (count : Nat) : ∃ values : List (List Char),
    values.length = count ∧
      Spaced (['\x7b'] :: (values ++ [['\x7d']])) (placeholderArray count).toList := by
  have hopen : IsWord ['\x7b'] := .of_any (by decide) (by decide)
  cases count with
  | zero =>
      have hclose : Spaced [['\x7d']] ['\x7d'] := IsWord.spaced (.of_any (by decide) (by decide))
      exact ⟨[], rfl, hclose.cons hopen (c := ' ') (by decide)⟩
  | succ count =>
      obtain ⟨values, hlength, hspaced⟩ := exists_spaced_intercalate count
      have htext : (placeholderArray (count + 1)).toList = ['\x7b'] ++ ' ' ::
          ([',', ' '].intercalate (List.replicate (count + 1) ['0']) ++ [' ', '\x7d']) := by
        rw [placeholderArray, if_neg (Nat.succ_ne_zero count), String.toList_append,
          String.toList_append, String.toList_intercalate, List.map_replicate]
        rfl
      rw [htext]
      exact ⟨values, hlength, hspaced.cons hopen (by decide)⟩

/-- The words of a written symbol are its type, its kind, its name and the words of its
value. -/
theorem spaced_write (e : SymbolEntry) (hname : IsWord e.name.toList) {ws : List (List Char)}
    (hvalue : Spaced ws e.value.toList) :
    Spaced ((if e.isArray then "int[]" else "int").toList :: e.kind.name.toList ::
      e.name.toList :: ws) (write e).toList := by
  have htype : IsWord (if e.isArray then "int[]" else "int").toList := by
    split <;> exact .of_any (by decide) (by decide)
  have hspace : " ".toList = [' '] := rfl
  simp only [write, String.toList_append, hspace, List.append_assoc, List.singleton_append]
  exact ((hvalue.cons hname (by decide)).cons e.kind.isWord_name (by decide)).cons htype (by decide)

/-- **Symbols are read as they were written.** -/
theorem read_write {kind : ResourceKind} {name : String} (hname : IsWord name.toList)
    (hbrackets : ¬['[', ']'] <:+: name.toList) :
    (∀ count, read (write (.array kind name (placeholderArray count))) =
      .ok (some (.array kind name (placeholderArray count)))) ∧
    read (write (.scalar kind name)) = .ok (some (.scalar kind name)) := by
  have hkind : sameIgnoringCase kind.name kind.name = true :=
    ResourceKind.ofName?_eq_some_iff.1 (ResourceKind.ofName?_name kind)
  refine ⟨fun count => ?_, ?_⟩
  · obtain ⟨values, hlength, hvalue⟩ := exists_spaced_placeholderArray count
    have hcount : (['\x7b'] :: (values ++ [['\x7d']])).length - 2 = count := by
      rw [List.length_cons, List.length_append, hlength]
      rfl
    have hread := read_array (spaced_write (.array kind name (placeholderArray count)) hname hvalue)
      hkind
    rwa [hcount] at hread
  · have hvalue : Spaced [placeholder.toList] placeholder.toList :=
      IsWord.spaced (.of_any (by decide) (by decide))
    exact read_scalar (spaced_write (.scalar kind name) hname hvalue) hkind
      (List.forall_mem_cons.2 ⟨hbrackets, List.forall_mem_singleton.2 (by decide)⟩)

/-- **Lines are read as what is written in them.**  A line may have any blanks around its
words and between them, and its kind may be in any letter case.  An array has a place for each
of the values between its braces, and a scalar its placeholder, whatever its values are.
Symbols that are written in this form are read as they were. -/
theorem read_of_hasWords {kind : ResourceKind} {kindWord name : String} {values : List String}
    (hkind : sameIgnoringCase kind.name kindWord = true)
    (htokens : ∀ token ∈ name :: values, IsWord token.toList ∧ ¬['[', ']'] <:+: token.toList) :
    (∀ line, HasWords line (["int[]", kindWord, name, "\x7b"] ++ values ++ ["\x7d"]) →
      read line = .ok (some (.array kind name (placeholderArray values.length)))) ∧
    (∀ line, HasWords line (["int", kindWord, name] ++ values) →
      read line = .ok (some (.scalar kind name))) ∧
    (∀ count, read (write (.array kind name (placeholderArray count))) =
      .ok (some (.array kind name (placeholderArray count)))) ∧
    read (write (.scalar kind name)) = .ok (some (.scalar kind name)) := by
  obtain ⟨⟨hname, hbrackets⟩, hvalues⟩ := List.forall_mem_cons.1 htokens
  refine ⟨fun line h => ?_, fun line h => ?_, read_write hname hbrackets⟩
  · rw [HasWords, List.map_append, List.map_append] at h
    rw [read_array h hkind]
    simp
  · rw [HasWords, List.map_append] at h
    refine read_scalar h hkind (List.forall_mem_cons.2 ⟨hbrackets, fun word hword => ?_⟩)
    obtain ⟨value, hvalue, rfl⟩ := List.mem_map.1 hword
    exact (hvalues value hvalue).2

/-- An array with two values and with blanks of several sorts, and a scalar with two values. -/
theorem read_of_hasWords_twoValues :
    HasWords "\u3000int[]\tSTYLEABLE  View \x7b\u00a00x1,\n0x2 \x7d "
      ["int[]", "STYLEABLE", "View", "\x7b", "0x1,", "0x2", "\x7d"] ∧
    read "\u3000int[]\tSTYLEABLE  View \x7b\u00a00x1,\n0x2 \x7d " =
      .ok (some (.array .styleable "View" "\x7b 0, 0 \x7d")) ∧
    read "int STYLEABLE View 0x1, 0x2" = .ok (some (.scalar .styleable "View")) := by
  have harray : HasWords "\u3000int[]\tSTYLEABLE  View \x7b\u00a00x1,\n0x2 \x7d "
      ["int[]", "STYLEABLE", "View", "\x7b", "0x1,", "0x2", "\x7d"] :=
    words_eq_iff.1 (by decide +kernel)
  have hscalar : HasWords "int STYLEABLE View 0x1, 0x2" ["int", "STYLEABLE", "View", "0x1,", "0x2"] :=
    words_eq_iff.1 (by decide +kernel)
  have htokens : ∀ token ∈ ["View", "0x1,", "0x2"],
      IsWord token.toList ∧ ¬['[', ']'] <:+: token.toList := by
    simp only [List.forall_mem_cons, List.not_mem_nil, false_implies, implies_true, and_true]
    exact ⟨⟨.of_any (by decide) (by decide), by decide⟩,
      ⟨.of_any (by decide) (by decide), by decide⟩, ⟨.of_any (by decide) (by decide), by decide⟩⟩
  have hkind : sameIgnoringCase (ResourceKind.name .styleable) "STYLEABLE" = true := by decide
  obtain ⟨hreadArray, hreadScalar, -⟩ := read_of_hasWords hkind htokens
  exact ⟨harray, hreadArray _ harray, hreadScalar _ hscalar⟩

end SymbolLine
end ResourceStubs
