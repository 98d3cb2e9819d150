import ResourceStubs.Proofs.Java.TypeRoundTrip
import ResourceStubs.Proofs.Text.Joined

/-!
# What a type keeps of its expression

The reader cuts an expression with arguments at its first and its last bracket, and never
looks at what stands behind the last one.  So `List<A>B` is read as `List<A>`, and so is
`List<A>[ ]`, since with the blank between them the brackets at the end are no mark of an
array.  Within arguments the blanks are gone before a mark is looked for.

Nothing else is left out, as the names and the commas between the pieces come back in the
text of the type.  Two tests of the expression tell whether everything does:
`nothingBehind` for what was cut out between commas, and `nothingLost` for a whole
expression, which still has its blanks.

* `text_generic_eq_iff`: when all of an expression with arguments is kept, if it is known when
  its arguments are.
* `Denotes.partOf`: the induction over what an expression denotes.
* `text_of_resolve`: the text of a type is a part of the expression, and all of it if and
  only if nothing is lost behind a closing bracket.
-/

namespace ResourceStubs
namespace JavaType

open Text

/-! ## What may stand behind a closing bracket -/

/-- Behind a closing bracket within type arguments come marks of arrays, and then a comma,
the bracket that closes the arguments, or the end. -/
def closes : List Char → Bool
  | [] => true
  | [c] => c = ',' || c = '>'
  | c :: d :: rest => if c = '[' ∧ d = ']' then closes rest else c = ',' || c = '>'

/-- Behind every closing bracket stands only what may stand there. -/
def nothingBehind : List Char → Bool
  | [] => true
  | c :: cs => (c ≠ '>' || closes cs) && nothingBehind cs

/-- There are only marks of arrays, and blanks between them. -/
def onlyMarks : List Char → Bool
  | [] => true
  | [c] => isBlank c
  | c :: d :: rest =>
      if c = '[' ∧ d = ']' then onlyMarks rest else isBlank c && onlyMarks (d :: rest)

/-- Nothing that stands behind a closing bracket is lost: behind the last one there are only
marks of arrays, and behind every other one what may stand within type arguments. -/
def nothingLost (cs : List Char) : Bool :=
  match cutLast? ['>'] cs with
  | none => true
  | some (front, tail) => onlyMarks tail && nothingBehind (withoutBlanks front)

theorem closes_append {cs ds : List Char} (hds : closes ds = true) :
    closes (cs ++ ds) = closes cs := by
  fun_induction closes cs with
  | case1 => exact hds
  | case2 c =>
      cases ds with
      | nil => rfl
      | cons d ds =>
          have hmark : ¬(c = '[' ∧ d = ']') := by
            rintro ⟨-, rfl⟩
            cases ds <;> simp [closes] at hds
          rw [List.singleton_append, closes, if_neg hmark]
  | case3 c d rest h ih =>
      rw [List.cons_append, List.cons_append, closes, if_pos h]
      exact ih
  | case4 c d rest h => rw [List.cons_append, List.cons_append, closes, if_neg h]

theorem nothingBehind_append {cs ds : List Char} (hds : closes ds = true) :
    nothingBehind (cs ++ ds) = (nothingBehind cs && nothingBehind ds) := by
  induction cs with
  | nil => rfl
  | cons c cs ih =>
      rw [List.cons_append, nothingBehind, closes_append hds, ih, nothingBehind, Bool.and_assoc]

theorem nothingBehind_of_notMem {cs : List Char} (h : '>' ∉ cs) (ds : List Char) :
    nothingBehind (cs ++ ds) = nothingBehind ds := by
  induction cs with
  | nil => rfl
  | cons c cs ih =>
      rw [List.mem_cons, not_or] at h
      rw [List.cons_append, nothingBehind, ih h.2]
      simp [Ne.symm h.1]

theorem nothingBehind_eq_true {cs : List Char} (h : '>' ∉ cs) : nothingBehind cs = true := by
  have hcs := nothingBehind_of_notMem h []
  rwa [List.append_nil] at hcs

theorem closes_cons {c : Char} (h : c = ',' ∨ c = '>') (cs : List Char) :
    closes (c :: cs) = true := by
  have hc : (decide (c = ',') || decide (c = '>')) = true := by simpa using h
  have hmark : ∀ d, ¬(c = '[' ∧ d = ']') := by
    rintro d ⟨rfl, -⟩
    exact absurd h (by decide)
  cases cs with
  | nil => exact hc
  | cons d rest => rw [closes, if_neg (hmark d), hc]

theorem nothingBehind_of_cut {front tail : List Char} (htail : '>' ∉ tail) :
    nothingBehind (front ++ '>' :: tail) = (nothingBehind front && closes tail) := by
  rw [nothingBehind_append (closes_cons (Or.inr rfl) tail), nothingBehind,
    nothingBehind_eq_true htail, Bool.and_true]
  simp

theorem onlyMarks_append {cs ds : List Char} (hds : onlyMarks ds = true) :
    onlyMarks (cs ++ ds) = onlyMarks cs := by
  fun_induction onlyMarks cs with
  | case1 => exact hds
  | case2 c =>
      cases ds with
      | nil => rfl
      | cons d ds =>
          have hmark : ¬(c = '[' ∧ d = ']') := by
            rintro ⟨-, rfl⟩
            have hblank : isBlank ']' = false := by decide
            cases ds <;> simp [onlyMarks, hblank] at hds
          rw [List.singleton_append, onlyMarks, if_neg hmark, hds, Bool.and_true]
  | case3 c d rest h ih =>
      rw [List.cons_append, List.cons_append, onlyMarks, if_pos h]
      exact ih
  | case4 c d rest h ih =>
      rw [List.cons_append, List.cons_append, onlyMarks, if_neg h, ← List.cons_append, ih]

/-- Marks with blanks between them end with a mark or with a blank. -/
theorem eq_nil_of_onlyMarks {cs : List Char} (h : onlyMarks cs = true)
    (hblank : ∀ c ∈ cs.getLast?, isBlank c = false) (harray : ¬['[', ']'] <:+ cs) : cs = [] := by
  fun_induction onlyMarks cs with
  | case1 => rfl
  | case2 c => exact absurd h (by simp [hblank c rfl])
  | case3 c d rest hmark ih =>
      obtain ⟨rfl, rfl⟩ := hmark
      cases rest with
      | nil => exact absurd (List.suffix_refl _) harray
      | cons c rest =>
          refine absurd (ih h hblank fun hsuffix => harray ?_) (List.cons_ne_nil c rest)
          exact hsuffix.trans ⟨['[', ']'], rfl⟩
  | case4 c d rest hmark ih =>
      rw [Bool.and_eq_true] at h
      refine absurd (ih h.2 hblank fun hsuffix => harray ?_) (List.cons_ne_nil d rest)
      exact hsuffix.trans ⟨[c], rfl⟩

/-- Without a comma and a bracket there are only marks. -/
theorem onlyMarks_of_closes {cs : List Char} (h : closes cs = true) (hcomma : ',' ∉ cs)
    (hclose : '>' ∉ cs) : onlyMarks cs = true := by
  have hfirst : ∀ {c : Char} {rest : List Char}, ',' ∉ c :: rest → '>' ∉ c :: rest →
      (decide (c = ',') || decide (c = '>')) = false := by
    intro c rest hcomma hclose
    rw [List.mem_cons, not_or] at hcomma hclose
    simp [Ne.symm hcomma.1, Ne.symm hclose.1]
  fun_induction closes cs with
  | case1 => rfl
  | case2 c => exact absurd h (by simp [hfirst hcomma hclose])
  | case3 c d rest hmark ih =>
      rw [onlyMarks, if_pos hmark]
      exact ih h (fun hmem => hcomma (List.mem_cons_of_mem _ (List.mem_cons_of_mem _ hmem)))
        fun hmem => hclose (List.mem_cons_of_mem _ (List.mem_cons_of_mem _ hmem))
  | case4 c d rest hmark => exact absurd h (by simp [hfirst hcomma hclose])

theorem nothingLost_of_cut {cs front tail : List Char} (hcs : cs = front ++ '>' :: tail)
    (htail : '>' ∉ tail) :
    nothingLost cs = (onlyMarks tail && nothingBehind (withoutBlanks front)) := by
  rw [nothingLost, cutLast?_eq_some_iff.2 ⟨hcs, htail⟩]

theorem nothingLost_of_notMem {cs : List Char} (h : '>' ∉ cs) : nothingLost cs = true := by
  rw [nothingLost, cutLast?_eq_none_iff.2 h]

theorem nothingLost_append {cs ds : List Char} (hclose : '>' ∉ ds) (hds : onlyMarks ds = true) :
    nothingLost (cs ++ ds) = nothingLost cs := by
  by_cases h : '>' ∈ cs
  · obtain ⟨front, tail, rfl, htail⟩ := exists_last h
    have hmore : '>' ∉ tail ++ ds := by
      rw [List.mem_append, not_or]
      exact ⟨htail, hclose⟩
    have hcs : front ++ '>' :: tail ++ ds = front ++ '>' :: (tail ++ ds) := by simp
    rw [nothingLost_of_cut hcs hmore, nothingLost_of_cut rfl htail, onlyMarks_append hds]
  · have hmore : '>' ∉ cs ++ ds := by
      rw [List.mem_append, not_or]
      exact ⟨h, hclose⟩
    rw [nothingLost_of_notMem hmore, nothingLost_of_notMem h]

theorem nothingLost_blanks_append {bs : List Char} (hbs : ∀ c ∈ bs, isBlank c = true)
    (cs : List Char) : nothingLost (bs ++ cs) = nothingLost cs := by
  by_cases h : '>' ∈ cs
  · obtain ⟨front, tail, rfl, htail⟩ := exists_last h
    rw [nothingLost_of_cut (List.append_assoc bs front _).symm htail, nothingLost_of_cut rfl htail,
      withoutBlanks_append, withoutBlanks_of_forall_isBlank hbs, List.nil_append]
  · have hmore : '>' ∉ bs ++ cs := by
      rw [List.mem_append, not_or]
      exact ⟨fun hmem => absurd (hbs _ hmem) (by decide), h⟩
    rw [nothingLost_of_notMem hmore, nothingLost_of_notMem h]

theorem onlyMarks_of_forall_isBlank {cs : List Char} (h : ∀ c ∈ cs, isBlank c = true) :
    onlyMarks cs = true := by
  induction cs with
  | nil => rfl
  | cons c cs ih =>
      obtain ⟨hc, hcs⟩ := List.forall_mem_cons.1 h
      cases cs with
      | nil => exact hc
      | cons d rest =>
          have hmark : ¬(c = '[' ∧ d = ']') := by
            rintro ⟨rfl, -⟩
            exact absurd hc (by decide)
          rw [onlyMarks, if_neg hmark, hc, ih hcs]
          rfl

theorem nothingLost_trim (cs : List Char) : nothingLost (trim cs) = nothingLost cs := by
  obtain ⟨before, after, hcs, hbefore, hafter⟩ := exists_trim cs
  have hclose : '>' ∉ after := fun hmem => absurd (hafter _ hmem) (by decide)
  have h := congrArg nothingLost hcs
  rw [List.append_assoc, nothingLost_blanks_append hbefore,
    nothingLost_append hclose (onlyMarks_of_forall_isBlank hafter)] at h
  exact h.symm

/-! ## The text of what is denoted -/

variable {cs : List Char} {t : JavaType}

/-- Of what stands between two arguments, the comma is left. -/
theorem withoutBlanks_argumentsText (arguments : List JavaType) :
    withoutBlanks (argumentsText arguments).toList =
      [','].intercalate (arguments.map fun t => withoutBlanks t.text.toList) := by
  induction arguments with
  | nil => rfl
  | cons t ts ih =>
      cases ts with
      | nil =>
          rw [List.map_singleton, List.intercalate_singleton]
          rfl
      | cons s ts =>
          have hcomma : withoutBlanks [',', ' '] = [','] := by decide
          have htext := toList_argumentsText_cons_cons t s ts
          rw [show t.text.toList ++ ',' :: ' ' :: (argumentsText (s :: ts)).toList =
            t.text.toList ++ [',', ' '] ++ (argumentsText (s :: ts)).toList by simp] at htext
          rw [htext, withoutBlanks_append, withoutBlanks_append, hcomma, ih, List.map_cons,
            List.map_cons, List.map_cons, List.intercalate_cons_cons]

theorem withoutBlanks_text_array (t : JavaType) :
    withoutBlanks (array t).text.toList = withoutBlanks t.text.toList ++ ['[', ']'] := by
  rw [toList_text_array, withoutBlanks_append]
  rfl

theorem withoutBlanks_text_generic (base : String) (arguments : List JavaType) :
    withoutBlanks (generic base arguments).text.toList = withoutBlanks base.toList ++ ['<'] ++
      [','].intercalate (arguments.map fun t => withoutBlanks t.text.toList) ++ ['>'] := by
  have hopen : withoutBlanks ['<'] = ['<'] := by decide
  have hclose : withoutBlanks ['>'] = ['>'] := by decide
  rw [toList_text_generic, ← List.singleton_append, ← List.append_assoc, ← List.append_assoc,
    withoutBlanks_append, withoutBlanks_append, withoutBlanks_append, hopen, hclose,
    withoutBlanks_argumentsText]

/-- A class that is read without aliases has the name of its expression. -/
theorem Denotes.toList_eq_trim {name : String} (h : Denotes [] cs (named name)) :
    name.toList = trim cs ∧ '>' ∉ trim cs := by
  generalize ht : named name = t at h
  cases h with
  | array _ _ _ => cases ht
  | generic _ _ _ _ _ _ _ _ => cases ht
  | leaf hcs harray hopen hclose =>
      rw [leaf_nil] at ht
      split at ht
      · cases ht
      · rw [JavaType.named.inj ht, String.toList_ofList]
        exact ⟨rfl, hclose⟩

theorem text_leaf_nil (name : String) : (leaf [] name).text = name := by
  rw [leaf_nil]
  split <;> rfl

/-- What is known of the text of the type that an expression denotes: but for blanks it is a
part of the expression, and it is all of it where nothing stands behind a closing bracket. -/
structure PartOf (cs : List Char) (t : JavaType) : Prop where
  sublist : (withoutBlanks t.text.toList).Sublist (withoutBlanks cs)
  whole_iff : withoutBlanks t.text.toList = withoutBlanks cs ↔ nothingLost cs = true
  whole_iff_of_piece : IsPiece cs →
    (withoutBlanks t.text.toList = withoutBlanks cs ↔ nothingBehind cs = true)

theorem partOf_leaf (hclose : '>' ∉ trim cs) : PartOf cs (leaf [] (String.ofList (trim cs))) := by
  have htext : withoutBlanks (leaf [] (String.ofList (trim cs))).text.toList =
      withoutBlanks cs := by
    rw [text_leaf_nil, String.toList_ofList, withoutBlanks_trim]
  constructor
  case sublist => rw [htext]
  case whole_iff =>
    rw [← nothingLost_trim, nothingLost_of_notMem hclose]
    exact ⟨fun _ => rfl, fun _ => htext⟩
  case whole_iff_of_piece =>
    intro hpiece
    rw [trim_of_forall hpiece.no_blank] at hclose
    rw [nothingBehind_eq_true hclose]
    exact ⟨fun _ => rfl, fun _ => htext⟩

theorem partOf_array {element : List Char} (hparts : trim cs = element ++ ['[', ']'])
    (h : PartOf element t) : PartOf cs (array t) := by
  have hmark : onlyMarks ['[', ']'] = true := by decide
  have hcs : withoutBlanks cs = withoutBlanks element ++ ['[', ']'] := by
    rw [← withoutBlanks_trim, hparts, withoutBlanks_append]
    rfl
  have hwhole : withoutBlanks (array t).text.toList = withoutBlanks cs ↔
      withoutBlanks t.text.toList = withoutBlanks element := by
    rw [withoutBlanks_text_array, hcs, List.append_left_inj]
  constructor
  case sublist =>
    rw [withoutBlanks_text_array, hcs]
    exact h.sublist.append (List.Sublist.refl _)
  case whole_iff =>
    rw [hwhole, h.whole_iff, ← nothingLost_trim cs, hparts, nothingLost_append (by decide) hmark]
  case whole_iff_of_piece =>
    intro hpiece
    rw [trim_of_forall hpiece.no_blank] at hparts
    rw [hwhole, h.whole_iff_of_piece (hpiece.of_prefix ⟨_, hparts.symm⟩), hparts,
      nothingBehind_append (by decide), Bool.and_eq_true, and_iff_left (by decide)]

/-! ## Classes with arguments -/

variable {base parameters behind : List Char} {name : String} {arguments : List JavaType}

theorem nothingBehind_intercalate (pieces : List (List Char)) :
    nothingBehind ([','].intercalate pieces) = pieces.all nothingBehind := by
  induction pieces with
  | nil => rfl
  | cons piece pieces ih =>
      cases pieces with
      | nil => simp
      | cons next pieces =>
          have hnone : '>' ∉ [','] := by decide
          have hcomma : nothingBehind (',' :: [','].intercalate (next :: pieces)) =
              nothingBehind ([','].intercalate (next :: pieces)) :=
            nothingBehind_of_notMem hnone _
          rw [List.intercalate_cons_cons, List.append_assoc, List.singleton_append,
            nothingBehind_append (closes_cons (Or.inl rfl) _), hcomma, ih]
          rfl

/-- The arguments keep their texts if nothing stands behind a bracket in a piece. -/
theorem texts_eq_iff {pieces : List (List Char)}
    (h : List.Forall₂ (fun piece t => IsPiece piece ∧ PartOf piece t) pieces arguments) :
    arguments.map (fun t => withoutBlanks t.text.toList) = pieces ↔
      pieces.all nothingBehind = true := by
  induction h with
  | nil => exact ⟨fun _ => rfl, fun _ => rfl⟩
  | cons hp hps ih =>
      obtain ⟨hpiece, hpart⟩ := hp
      rw [List.map_cons, List.cons.injEq, ih, List.all_cons, Bool.and_eq_true,
        ← hpart.whole_iff_of_piece hpiece, withoutBlanks_of_forall hpiece.no_blank]

/-- Behind the last bracket of a piece there are no commas, as they would be outer ones. -/
theorem comma_notMem_behind {front : List Char} (hpiece : IsPiece (front ++ '>' :: behind))
    (hbalanced : balanced (front ++ '>' :: behind) = true) (hclose : '>' ∉ behind) :
    ',' ∉ behind := by
  obtain ⟨hfront, hopen⟩ := netDepth_of_last_close hbalanced hclose
  intro hcomma
  obtain ⟨before, after, rfl⟩ := List.append_of_mem hcomma
  have hbefore : netDepth before = 0 :=
    netDepth_of_notMem (fun hmem => hopen (List.mem_append_left _ hmem))
      fun hmem => hclose (List.mem_append_left _ hmem)
  refine hpiece.no_outer_comma (front ++ ['>'] ++ before) after (by simp) ?_
  rw [netDepth_append, hfront, hbefore]
  rfl

/-- What stands behind the last bracket ends as the whole expression does. -/
theorem getLast?_behind (hparts : trim cs = base ++ '<' :: parameters ++ '>' :: behind) :
    ∀ c ∈ behind.getLast?, isBlank c = false := by
  intro c hc
  refine (ends_trim cs).2 c ?_
  have hne : behind ≠ [] := by
    rintro rfl
    exact absurd hc (by simp)
  rw [hparts, ← List.singleton_append (l := behind), ← List.append_assoc,
    List.getLast?_append_of_ne_nil _ hne]
  exact hc

theorem behind_eq_nil (hparts : trim cs = base ++ '<' :: parameters ++ '>' :: behind)
    (hblanks : withoutBlanks behind = []) : behind = [] := by
  by_contra hne
  have hlast := getLast?_behind hparts _ (List.getLast?_eq_some_getLast hne)
  have hmem : behind.getLast hne ∈ withoutBlanks behind :=
    List.mem_filter.2 ⟨List.getLast_mem hne, by rw [hlast]; rfl⟩
  rw [hblanks] at hmem
  exact absurd hmem List.not_mem_nil

/-- Only marks behind the last bracket are none, since an array would have been read first. -/
theorem onlyMarks_behind_iff (hparts : trim cs = base ++ '<' :: parameters ++ '>' :: behind)
    (harray : ¬['[', ']'] <:+ trim cs) : onlyMarks behind = true ↔ behind = [] := by
  refine ⟨fun h => eq_nil_of_onlyMarks h (getLast?_behind hparts) fun hsuffix => ?_, ?_⟩
  · rw [hparts] at harray
    exact harray (hsuffix.trans ⟨base ++ '<' :: parameters ++ ['>'], by simp⟩)
  · rintro rfl
    rfl

/-- Up to the last bracket, only the pieces have brackets that close. -/
theorem nothingBehind_front (hbase : '>' ∉ trim base) :
    nothingBehind (withoutBlanks (base ++ '<' :: parameters)) =
      (splitArguments parameters).all nothingBehind := by
  have hopen : withoutBlanks ['<'] = ['<'] := by decide
  have hnone : '>' ∉ withoutBlanks base ++ ['<'] := by
    rw [← withoutBlanks_trim, List.mem_append, not_or]
    exact ⟨fun hmem => hbase (List.mem_filter.1 hmem).1, by decide⟩
  rw [← List.singleton_append, ← List.append_assoc, withoutBlanks_append, withoutBlanks_append,
    hopen, nothingBehind_of_notMem hnone, ← intercalate_splitArguments, nothingBehind_intercalate]

/-- **All of an expression with arguments is kept** if and only if nothing stands behind its
last bracket and the arguments are kept. -/
theorem text_generic_eq_iff (hparts : trim cs = base ++ '<' :: parameters ++ '>' :: behind)
    (hname : name.toList = trim base)
    (harguments : List.Forall₂ (fun piece t => IsPiece piece ∧ PartOf piece t)
      (splitArguments parameters) arguments) :
    (withoutBlanks (generic name arguments).text.toList).Sublist (withoutBlanks cs) ∧
    (withoutBlanks (generic name arguments).text.toList = withoutBlanks cs ↔
      behind = [] ∧ (splitArguments parameters).all nothingBehind = true) := by
  have hcs : withoutBlanks cs = withoutBlanks base ++ ['<'] ++
      [','].intercalate (splitArguments parameters) ++ '>' :: withoutBlanks behind := by
    rw [withoutBlanks_of_parts hparts, intercalate_splitArguments]
    simp
  have hsublist : List.Forall₂ List.Sublist
      (arguments.map fun t => withoutBlanks t.text.toList) (splitArguments parameters) := by
    rw [List.forall₂_map_left_iff]
    refine harguments.flip.imp fun t piece h => ?_
    rw [← withoutBlanks_of_forall h.1.no_blank]
    exact h.2.sublist
  have harguments' := sublist_intercalate [','] hsublist
  have hinner := (List.Sublist.refl (withoutBlanks base ++ ['<'])).append harguments'
  have hlast : ['>'].Sublist ('>' :: withoutBlanks behind) := (List.nil_sublist _).cons_cons '>'
  rw [withoutBlanks_text_generic, hname, withoutBlanks_trim, hcs]
  refine ⟨hinner.append hlast, ?_⟩
  rw [← texts_eq_iff harguments]
  constructor
  · intro h
    obtain ⟨hfront, hbehind⟩ := append_eq_of_sublist hinner hlast h
    exact ⟨behind_eq_nil hparts (List.cons.inj hbehind).2.symm,
      eq_of_intercalate_eq hsublist (List.append_cancel_left hfront)⟩
  · rintro ⟨rfl, h⟩
    rw [h]
    rfl

theorem partOf_generic (hcs : IsExpression (trim cs)) (harray : ¬['[', ']'] <:+ trim cs)
    (hparts : trim cs = base ++ '<' :: parameters ++ '>' :: behind) (hclose : '>' ∉ behind)
    (harguments : List.Forall₂ PartOf (splitArguments parameters) arguments)
    (hbase : Denotes [] base (named name)) : PartOf cs (generic name arguments) := by
  obtain ⟨hlength, hpart⟩ := List.forall₂_iff_zip.1 harguments
  have hpieces : List.Forall₂ (fun piece t => IsPiece piece ∧ PartOf piece t)
      (splitArguments parameters) arguments :=
    List.forall₂_iff_zip.2 ⟨hlength, fun hmem =>
      ⟨isPiece_of_mem_splitArguments (List.of_mem_zip hmem).1, hpart hmem⟩⟩
  obtain ⟨hname, hbaseClose⟩ := hbase.toList_eq_trim
  obtain ⟨hsublist, hwhole⟩ := text_generic_eq_iff hparts hname hpieces
  have hmarks := onlyMarks_behind_iff hparts harray
  have hfront : nothingBehind (withoutBlanks (base ++ '<' :: parameters)) =
      (splitArguments parameters).all nothingBehind := nothingBehind_front hbaseClose
  refine ⟨hsublist, ?_, fun hpiece => ?_⟩
  · rw [hwhole, ← nothingLost_trim, nothingLost_of_cut hparts hclose, hfront, Bool.and_eq_true,
      hmarks]
  · rw [trim_of_forall hpiece.no_blank] at hparts hcs
    have hcloses : closes behind = true ↔ behind = [] := by
      refine ⟨fun h => hmarks.1 (onlyMarks_of_closes h ?_ hclose), ?_⟩
      · rw [hparts] at hpiece hcs
        exact comma_notMem_behind hpiece hcs.balanced hclose
      · rintro rfl
        rfl
    have hblank : withoutBlanks (base ++ '<' :: parameters) = base ++ '<' :: parameters :=
      withoutBlanks_of_forall fun c hc =>
        hpiece.no_blank c (hparts ▸ List.mem_append_left _ hc)
    rw [hwhole, hparts, nothingBehind_of_cut hclose, ← hblank, hfront, Bool.and_eq_true, hcloses,
      and_comm]

/-- **The text of a type is a part of the expression**, and all of it where nothing stands
behind a closing bracket. -/
theorem Denotes.partOf (h : Denotes [] cs t) : PartOf cs t := by
  induction h with
  | array _ hparts _ ih => exact partOf_array hparts ih
  | generic hcs harray hparts _ hclose hlength _ hbase ihArguments _ =>
      exact partOf_generic hcs harray hparts hclose
        (List.forall₂_iff_zip.2 ⟨hlength, ihArguments _ _⟩) hbase
  | leaf _ _ _ hclose => exact partOf_leaf hclose

/-- **What a type keeps of its expression.**  Without aliases, the text of a type is a part
of the expression it was read from, when blanks are dropped from both.  It is all of it if
and only if nothing that stands behind a closing bracket is lost: behind the last one there
are only marks of arrays, and behind every other one there are such marks, and then a comma
or the next closing bracket. -/
theorem text_of_resolve {expression : String} (h : resolve [] expression = .ok t) :
    (withoutBlanks t.text.toList).Sublist (withoutBlanks expression.toList) ∧
    (withoutBlanks t.text.toList = withoutBlanks expression.toList ↔
      nothingLost expression.toList = true) := by
  have hpart : PartOf expression.toList t := (resolve_eq_ok_iff.1 h).partOf
  exact ⟨hpart.sublist, hpart.whole_iff⟩

/-- Of the map nothing is lost but blanks. -/
theorem text_of_resolve_mapOfLists :
    resolve [] " Map<String,List< Foo[ ]>> " = .ok mapOfLists ∧
    withoutBlanks mapOfLists.text.toList =
      withoutBlanks " Map<String,List< Foo[ ]>> ".toList :=
  ⟨resolve_mapOfLists, (text_of_resolve resolve_mapOfLists).2.2 (by decide)⟩

/-- What stands behind the last bracket is lost, be it a name or a mark of an array with a blank
in it. -/
theorem text_without_mark :
    resolve [] "List<A>[ ]" = .ok (generic "List" [named "A"]) ∧
    resolve [] "List<A>B" = .ok (generic "List" [named "A"]) ∧
    withoutBlanks (generic "List" [named "A"]).text.toList ≠
      withoutBlanks "List<A>[ ]".toList ∧
    withoutBlanks (generic "List" [named "A"]).text.toList ≠
      withoutBlanks "List<A>B".toList := by
  have hresolve : ∀ behind : List Char, IsExpression (trim ("List<A>".toList ++ behind)) →
      ¬['[', ']'] <:+ trim ("List<A>".toList ++ behind) →
      trim ("List<A>".toList ++ behind) = "List".toList ++ '<' :: ['A'] ++ '>' :: behind →
      '>' ∉ behind → Denotes [] ("List<A>".toList ++ behind) (generic "List" [named "A"]) := by
    intro behind hcs harray hparts hclose
    refine .generic hcs harray hparts (by decide) hclose (by decide) ?_
      (PlainName.denotes (by decide) rfl)
    have hpieces : splitArguments ['A'] = ["A".toList] := by decide
    intro piece t hmem
    rw [hpieces, List.zip_cons_cons, List.zip_nil_left, List.mem_singleton] at hmem
    obtain ⟨rfl, rfl⟩ := Prod.mk.inj hmem
    exact PlainName.denotes (by decide) rfl
  refine ⟨resolve_eq_ok_iff.2 ?_, resolve_eq_ok_iff.2 ?_, by decide, by decide⟩
  · exact hresolve ['[', ' ', ']'] ⟨by decide, by decide⟩ (by decide) (by decide) (by decide)
  · exact hresolve ['B'] ⟨by decide, by decide⟩ (by decide) (by decide) (by decide)

end JavaType
end ResourceStubs
