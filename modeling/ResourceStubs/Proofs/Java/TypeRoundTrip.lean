import ResourceStubs.Proofs.Java.Denotation

/-!
# Types that can be read, and reading what was printed

The reader makes only some types.  A name has no brackets and no blank at its ends; within
type arguments, which lose their blanks and are cut at commas, it has no blank and no comma
at all.  `Readable` says so of a type, constructor by constructor.

* `Denotes.readable_and_isTight`: without aliases, an expression denotes only readable
  types.
* `Readable.readsBack`: a readable type is denoted by its own text, whatever aliases there
  are for other names.
* `resolve_text_inverse`: reading and printing are inverse to each other.

Both inductions say more than the results.  What is read within arguments is tight as well,
since its expression has no blank and no outer comma (`IsPiece`).  And the text of an
argument has lost its blanks before it is read, so a tight type has to be denoted by its
text without blanks too (`ReadsBack`).
-/

namespace ResourceStubs
namespace JavaType

open Text

/-! ## Names -/

/-- What an expression without parts looks like. -/
structure IsLeaf (cs : List Char) : Prop where
  ne_nil : cs ≠ []
  no_blank_before : ∀ c ∈ cs.head?, isBlank c = false
  no_blank_behind : ∀ c ∈ cs.getLast?, isBlank c = false
  no_open : '<' ∉ cs
  no_close : '>' ∉ cs
  no_array : ¬['[', ']'] <:+ cs

/-- A name of a class that can be read. -/
structure PlainName (name : String) : Prop extends IsLeaf name.toList where
  not_primitive : name ∉ primitiveNames

/-- A name of a class that can be read within type arguments. -/
structure TightName (name : String) : Prop extends PlainName name where
  no_blank : ∀ c ∈ name.toList, isBlank c = false
  no_comma : ',' ∉ name.toList

instance (cs : List Char) : Decidable (IsLeaf cs) :=
  decidable_of_iff (cs ≠ [] ∧ cs.head?.all (!isBlank ·) = true ∧
      cs.getLast?.all (!isBlank ·) = true ∧ '<' ∉ cs ∧ '>' ∉ cs ∧ ¬['[', ']'] <:+ cs) <| by
    simp only [Option.all_eq_true, Bool.not_eq_eq_eq_not, Bool.not_true]
    exact ⟨fun ⟨h₁, h₂, h₃, h₄, h₅, h₆⟩ => ⟨h₁, h₂, h₃, h₄, h₅, h₆⟩,
      fun ⟨h₁, h₂, h₃, h₄, h₅, h₆⟩ => ⟨h₁, h₂, h₃, h₄, h₅, h₆⟩⟩

instance (name : String) : Decidable (PlainName name) :=
  decidable_of_iff (IsLeaf name.toList ∧ name ∉ primitiveNames)
    ⟨fun ⟨hleaf, h⟩ => ⟨hleaf, h⟩, fun ⟨hleaf, h⟩ => ⟨hleaf, h⟩⟩

instance (name : String) : Decidable (TightName name) :=
  decidable_of_iff
    (PlainName name ∧ name.toList.all (!isBlank ·) = true ∧ ',' ∉ name.toList) <| by
    simp only [List.all_eq_true, Bool.not_eq_eq_eq_not, Bool.not_true]
    exact ⟨fun ⟨hplain, hblank, hcomma⟩ => ⟨hplain, hblank, hcomma⟩,
      fun ⟨hplain, hblank, hcomma⟩ => ⟨hplain, hblank, hcomma⟩⟩

mutual

/-- The names in a type: of its primitives, of its classes, and of its classes with
arguments. -/
def names : JavaType → List String
  | primitive name => [name]
  | named name => [name]
  | array element => element.names
  | generic base arguments => base :: namesOfAll arguments

/-- The names in the types of a list. -/
def namesOfAll : List JavaType → List String
  | [] => []
  | t :: ts => t.names ++ namesOfAll ts

end

theorem mem_namesOfAll {name : String} {ts : List JavaType} :
    name ∈ namesOfAll ts ↔ ∃ t ∈ ts, name ∈ t.names := by
  induction ts with
  | nil => simp [namesOfAll]
  | cons t ts ih => simp [namesOfAll, ih]

/-- Every name in the type is a tight one, or the name of a primitive. -/
def IsTight (t : JavaType) : Prop :=
  ∀ name ∈ t.names, name ∈ primitiveNames ∨ TightName name

instance (t : JavaType) : Decidable t.IsTight :=
  inferInstanceAs (Decidable (∀ name ∈ t.names, name ∈ primitiveNames ∨ TightName name))

/-- The types that can be read. -/
inductive Readable : JavaType → Prop
  | primitive {name : String} (hname : name ∈ primitiveNames) : Readable (primitive name)
  | named {name : String} (hname : PlainName name) : Readable (named name)
  | array {element : JavaType} (helement : Readable element) : Readable (array element)
  | generic {base : String} {arguments : List JavaType} (hbase : PlainName base)
      (hne : arguments ≠ []) (harguments : ∀ t ∈ arguments, Readable t)
      (htight : ∀ t ∈ arguments, t.IsTight) : Readable (generic base arguments)

/-! ## Leaves -/

variable {aliases : Aliases} {cs : List Char} {name : String} {t : JavaType}

theorem IsLeaf.trim_eq (h : IsLeaf cs) : trim cs = cs :=
  trim_eq_self_iff.2 ⟨h.no_blank_before, h.no_blank_behind⟩

theorem IsLeaf.denotes (h : IsLeaf cs) : Denotes aliases cs (leaf aliases (String.ofList cs)) := by
  have hdenotes : Denotes aliases cs (leaf aliases (String.ofList (trim cs))) := by
    refine .leaf ?_ ?_ ?_ ?_ <;> rw [h.trim_eq]
    · exact ⟨h.ne_nil, balanced_of_notMem h.no_open h.no_close⟩
    · exact h.no_array
    · exact h.no_open
    · exact h.no_close
  rwa [h.trim_eq] at hdenotes

theorem PlainName.denotes (h : PlainName name) (halias : aliases.find? name = none) :
    Denotes aliases name.toList (named name) := by
  have hdenotes : Denotes aliases name.toList (leaf aliases (String.ofList name.toList)) :=
    h.toIsLeaf.denotes
  rwa [String.ofList_toList, leaf, halias, if_neg h.not_primitive] at hdenotes

/-- The names of primitives are leaves without blanks and commas. -/
theorem isLeaf_of_mem_primitiveNames (h : name ∈ primitiveNames) :
    IsLeaf name.toList ∧ (∀ c ∈ name.toList, isBlank c = false) ∧ ',' ∉ name.toList := by
  have hall : ∀ name ∈ primitiveNames,
      IsLeaf name.toList ∧ name.toList.all (!isBlank ·) = true ∧ ',' ∉ name.toList := by decide
  obtain ⟨hleaf, hblank, hcomma⟩ := hall name h
  exact ⟨hleaf, by simpa using hblank, hcomma⟩

theorem denotes_primitive (h : name ∈ primitiveNames) (halias : aliases.find? name = none) :
    Denotes aliases name.toList (primitive name) := by
  have hdenotes : Denotes aliases name.toList (leaf aliases (String.ofList name.toList)) :=
    (isLeaf_of_mem_primitiveNames h).1.denotes
  rwa [String.ofList_toList, leaf, halias, if_pos h] at hdenotes

/-! ## What is denoted is readable -/

theorem isTight_of_mem_names {n : String} (hnames : t.names = [n])
    (h : n ∈ primitiveNames ∨ TightName n) : t.IsTight := by
  intro m hm
  rw [hnames, List.mem_singleton] at hm
  rwa [hm]

/-- Without aliases a leaf is a primitive or a class. -/
theorem leaf_nil (name : String) :
    leaf [] name = if name ∈ primitiveNames then primitive name else named name := rfl

theorem readable_and_isTight_leaf (h : IsLeaf cs) :
    (leaf [] (String.ofList cs)).Readable ∧
      (IsPiece cs → (leaf [] (String.ofList cs)).IsTight) := by
  rw [leaf_nil]
  split
  case isTrue hprimitive =>
    exact ⟨.primitive hprimitive, fun _ => isTight_of_mem_names rfl (Or.inl hprimitive)⟩
  case isFalse hprimitive =>
    have hplain : PlainName (String.ofList cs) := ⟨by rwa [String.toList_ofList], hprimitive⟩
    refine ⟨.named hplain, fun hpiece => isTight_of_mem_names rfl (Or.inr ⟨hplain, ?_, ?_⟩)⟩
    · rw [String.toList_ofList]
      exact hpiece.no_blank
    · -- without brackets every comma is an outer one
      rw [String.toList_ofList]
      exact hpiece.no_outer_comma.notMem h.no_open h.no_close

/-- **Without aliases, an expression denotes only readable types**, and what was cut out
between commas denotes only tight ones. -/
theorem Denotes.readable_and_isTight (h : Denotes [] cs t) :
    t.Readable ∧ (IsPiece cs → t.IsTight) := by
  induction h with
  | @array cs element t hcs hparts _ ih =>
      refine ⟨.array ih.1, fun hpiece => ?_⟩
      rw [trim_of_forall hpiece.no_blank] at hparts
      exact ih.2 (hpiece.of_prefix ⟨['[', ']'], hparts.symm⟩)
  | @generic cs base parameters behind name arguments hcs _ hparts _ _ hlength _ _ ihArguments
      ihBase =>
      -- every argument is read from a piece
      have hargument : ∀ t ∈ arguments, t.Readable ∧ t.IsTight := by
        intro t ht
        rw [← List.map_snd_zip (Nat.le_of_eq hlength.symm)] at ht
        obtain ⟨⟨piece, s⟩, hmem, rfl⟩ := List.mem_map.1 ht
        have hpiece := isPiece_of_mem_splitArguments (List.of_mem_zip hmem).1
        exact ⟨(ihArguments piece s hmem).1, (ihArguments piece s hmem).2 hpiece⟩
      have hne : arguments ≠ [] := by
        rintro rfl
        exact splitArgumentsFrom_ne_nil 0 parameters (List.length_eq_zero_iff.1 hlength)
      obtain ⟨hreadable, hbase⟩ := ihBase
      cases hreadable with
      | named hname =>
          refine ⟨.generic hname hne (fun t ht => (hargument t ht).1)
            fun t ht => (hargument t ht).2, fun hpiece n hn => ?_⟩
          rw [names, List.mem_cons, mem_namesOfAll] at hn
          rcases hn with rfl | ⟨t, ht, hn⟩
          · rw [trim_of_forall hpiece.no_blank, List.append_assoc] at hparts
            exact hbase (hpiece.of_prefix ⟨_, hparts.symm⟩) n (by simp [names])
          · exact (hargument t ht).2 n hn
  | @leaf cs hcs harray hopen hclose =>
      have hleaf : IsLeaf (trim cs) :=
        ⟨hcs.ne_nil, (ends_trim cs).1, (ends_trim cs).2, hopen, hclose, harray⟩
      refine ⟨(readable_and_isTight_leaf hleaf).1, fun hpiece => ?_⟩
      refine (readable_and_isTight_leaf hleaf).2 ?_
      rwa [trim_of_forall hpiece.no_blank]

/-! ## The text of an array and of a class with arguments -/

theorem denotes_array (h : Denotes aliases cs t) (htrim : trim cs = cs) :
    Denotes aliases (cs ++ ['[', ']']) (array t) := by
  obtain ⟨hne, hbalanced⟩ := h.isExpression
  rw [htrim] at hne hbalanced
  have htext : trim (cs ++ ['[', ']']) = cs ++ ['[', ']'] :=
    trim_append htrim (by decide) hne (by decide)
  refine .array ⟨?_, ?_⟩ htext h
  · rw [htext]
    simp
  · rw [htext, balanced, balancedFrom_balanced_append hbalanced]
    rfl

theorem IsLeaf.trim_brackets (h : IsLeaf cs) (inner : List Char) :
    trim (cs ++ '<' :: (inner ++ ['>'])) = cs ++ '<' :: (inner ++ ['>']) := by
  refine trim_append h.trim_eq (trim_eq_self_iff.2 ⟨?_, ?_⟩) h.ne_nil (List.cons_ne_nil _ _)
  · rintro c ⟨⟩
    decide
  · rw [← List.cons_append, List.getLast?_concat]
    rintro c ⟨⟩
    decide

/-- The arguments stand between the brackets, each in a piece of its own. -/
theorem denotes_generic {base : String} {parameters : List Char} {arguments : List JavaType}
    (hbase : PlainName base) (halias : aliases.find? base = none)
    (hbalanced : balanced parameters = true)
    (hpieces : splitArguments parameters = arguments.map fun t => withoutBlanks t.text.toList)
    (harguments : ∀ t ∈ arguments, Denotes aliases (withoutBlanks t.text.toList) t) :
    Denotes aliases (base.toList ++ '<' :: (parameters ++ ['>'])) (generic base arguments) := by
  have htrim := hbase.trim_brackets parameters
  have hexpression : IsExpression (trim (base.toList ++ '<' :: (parameters ++ ['>']))) := by
    rw [htrim]
    exact ⟨by simp, balanced_brackets hbase.no_open hbase.no_close hbalanced⟩
  have hparts : trim (base.toList ++ '<' :: (parameters ++ ['>'])) =
      base.toList ++ '<' :: parameters ++ '>' :: [] := by
    rw [htrim, ← List.cons_append, List.append_assoc]
  have harray : ¬['[', ']'] <:+ trim (base.toList ++ '<' :: (parameters ++ ['>'])) := by
    rw [hparts]
    rintro ⟨element, h⟩
    have hlast := congrArg List.getLast? h
    rw [List.getLast?_concat, List.getLast?_append_of_ne_nil _ (by decide)] at hlast
    exact absurd hlast (by decide)
  refine .generic hexpression harray hparts hbase.no_open List.not_mem_nil ?_ ?_
    (hbase.denotes halias)
  · rw [hpieces, List.length_map]
  · intro piece t hmem
    rw [hpieces, ← List.map_prod_right_eq_zip] at hmem
    obtain ⟨s, hs, heq⟩ := List.mem_map.1 hmem
    obtain ⟨rfl, rfl⟩ := Prod.mk.inj heq
    exact harguments s hs

/-! ## The text of the arguments -/

/-- Between two arguments stand a comma and a blank. -/
theorem toList_argumentsText_cons_cons (t s : JavaType) (ts : List JavaType) :
    (argumentsText (t :: s :: ts)).toList =
      t.text.toList ++ ',' :: ' ' :: (argumentsText (s :: ts)).toList := by
  rw [argumentsText, String.toList_append, String.toList_append, List.append_assoc]
  · rfl
  · simp

theorem balanced_argumentsText {arguments : List JavaType}
    (h : ∀ t ∈ arguments, balanced t.text.toList = true) :
    balanced (argumentsText arguments).toList = true := by
  induction arguments with
  | nil => rfl
  | cons t ts ih =>
      rw [List.forall_mem_cons] at h
      cases ts with
      | nil => exact h.1
      | cons s ts =>
          rw [toList_argumentsText_cons_cons, balanced, balancedFrom_balanced_append h.1]
          simpa [balancedFrom, balanced] using ih h.2

/-- **The text of the arguments is cut into their texts**, less the blanks. -/
theorem splitArguments_argumentsText {arguments : List JavaType} (hne : arguments ≠ [])
    (h : ∀ t ∈ arguments, balanced t.text.toList = true ∧ NoOuterComma t.text.toList) :
    splitArguments (argumentsText arguments).toList =
      arguments.map fun t => withoutBlanks t.text.toList := by
  induction arguments with
  | nil => exact absurd rfl hne
  | cons t ts ih =>
      obtain ⟨⟨hbalanced, hcomma⟩, hts⟩ := List.forall_mem_cons.1 h
      cases ts with
      | nil => exact splitArguments_singleton hcomma
      | cons s ts =>
          rw [toList_argumentsText_cons_cons, splitArguments_append_comma hcomma hbalanced,
            ih (List.cons_ne_nil _ _) hts]
          rfl

/-! ## A readable type is denoted by its text -/

theorem toList_text_array (t : JavaType) :
    (array t).text.toList = t.text.toList ++ ['[', ']'] := by
  rw [text_array, String.toList_append]
  rfl

theorem toList_text_generic (base : String) (arguments : List JavaType) :
    (generic base arguments).text.toList =
      base.toList ++ '<' :: ((argumentsText arguments).toList ++ ['>']) := by
  simp

/-- The elements of a tight array are tight. -/
theorem isTight_of_array (h : (array t).IsTight) : t.IsTight :=
  fun name hname => h name (by rwa [names])

/-- What is known of the text of a type: it can be read back as it stands, and as an
argument if the type is tight. -/
structure ReadsBack (aliases : Aliases) (t : JavaType) : Prop where
  trim_eq : trim t.text.toList = t.text.toList
  denotes : Denotes aliases t.text.toList t
  no_outer_comma : t.IsTight → NoOuterComma t.text.toList
  denotes_withoutBlanks : t.IsTight → Denotes aliases (withoutBlanks t.text.toList) t

theorem ReadsBack.balanced_text (h : ReadsBack aliases t) : balanced t.text.toList = true := by
  have hbalanced := h.denotes.isExpression.balanced
  rwa [h.trim_eq] at hbalanced

/-- A leaf loses nothing when it becomes an argument. -/
theorem IsLeaf.readsBack (h : IsLeaf t.text.toList) (hdenotes : Denotes aliases t.text.toList t)
    (htight : t.IsTight → (∀ c ∈ t.text.toList, isBlank c = false) ∧ ',' ∉ t.text.toList) :
    ReadsBack aliases t where
  trim_eq := h.trim_eq
  denotes := hdenotes
  no_outer_comma ht := noOuterCommaFrom_of_notMem 0 (htight ht).2
  denotes_withoutBlanks ht := by rwa [withoutBlanks_of_forall (htight ht).1]

theorem readsBack_array (h : ReadsBack aliases t) : ReadsBack aliases (array t) where
  trim_eq := by
    have hexpression := h.denotes.isExpression
    rw [h.trim_eq] at hexpression
    rw [toList_text_array]
    exact trim_append h.trim_eq (by decide) hexpression.ne_nil (by decide)
  denotes := by
    rw [toList_text_array]
    exact denotes_array h.denotes h.trim_eq
  no_outer_comma ht := by
    rw [toList_text_array]
    exact noOuterCommaFrom_append.2
      ⟨h.no_outer_comma (isTight_of_array ht), noOuterCommaFrom_of_notMem _ (by decide)⟩
  denotes_withoutBlanks ht := by
    have hbrackets : withoutBlanks ['[', ']'] = ['[', ']'] := by decide
    rw [toList_text_array, withoutBlanks_append, hbrackets]
    exact denotes_array (h.denotes_withoutBlanks (isTight_of_array ht))
      (trim_of_forall fun c hc => isBlank_of_mem_withoutBlanks hc)

theorem readsBack_generic {base : String} {arguments : List JavaType} (hbase : PlainName base)
    (halias : aliases.find? base = none) (hne : arguments ≠ [])
    (harguments : ∀ t ∈ arguments, ReadsBack aliases t)
    (htight : ∀ t ∈ arguments, t.IsTight) : ReadsBack aliases (generic base arguments) := by
  have hbalanced : balanced (argumentsText arguments).toList = true :=
    balanced_argumentsText fun t ht => (harguments t ht).balanced_text
  have hpieces := splitArguments_argumentsText hne fun t ht =>
    ⟨(harguments t ht).balanced_text, (harguments t ht).no_outer_comma (htight t ht)⟩
  -- the pieces have lost their blanks, so the texts of the arguments do not occur in them
  have hdenotes : ∀ t ∈ arguments, Denotes aliases (withoutBlanks t.text.toList) t :=
    fun t ht => (harguments t ht).denotes_withoutBlanks (htight t ht)
  have hname : (generic base arguments).IsTight → TightName base := fun ht =>
    (ht base (by simp [names])).resolve_left hbase.not_primitive
  constructor
  case trim_eq =>
    rw [toList_text_generic]
    exact hbase.trim_brackets _
  case denotes =>
    rw [toList_text_generic]
    exact denotes_generic hbase halias hbalanced hpieces hdenotes
  case no_outer_comma =>
    intro ht
    rw [toList_text_generic]
    exact noOuterComma_brackets hbase.no_open hbase.no_close (hname ht).no_comma hbalanced
  case denotes_withoutBlanks =>
    -- the brackets and the base stay, and the arguments are cut as before
    intro ht
    have hopen : withoutBlanks ['<'] = ['<'] := by decide
    have hclose : withoutBlanks ['>'] = ['>'] := by decide
    rw [toList_text_generic, ← List.singleton_append, withoutBlanks_append, withoutBlanks_append,
      withoutBlanks_append, hopen, hclose, withoutBlanks_of_forall (hname ht).no_blank]
    exact denotes_generic hbase halias (by rwa [balanced_withoutBlanks])
      (by rwa [splitArguments_withoutBlanks]) hdenotes

/-- **A readable type can be read back from its text**, by induction on its constructors,
if no name in it is an alias. -/
theorem Readable.readsBack (h : t.Readable) :
    (∀ name ∈ t.names, aliases.find? name = none) → ReadsBack aliases t := by
  induction h with
  | @primitive name hname =>
      intro halias
      obtain ⟨hleaf, hblank, hcomma⟩ := isLeaf_of_mem_primitiveNames hname
      exact IsLeaf.readsBack (t := JavaType.primitive name) hleaf
        (denotes_primitive hname (halias _ (by simp [names]))) fun _ => ⟨hblank, hcomma⟩
  | @named name hname =>
      intro halias
      refine IsLeaf.readsBack (t := JavaType.named name) hname.toIsLeaf
        (hname.denotes (halias _ (by simp [names]))) fun ht => ?_
      have htight := (ht name (by simp [names])).resolve_left hname.not_primitive
      exact ⟨htight.no_blank, htight.no_comma⟩
  | array _ ih =>
      intro halias
      exact readsBack_array (ih fun name hname => halias name (by rwa [names]))
  | generic hbase hne _ htight ih =>
      intro halias
      refine readsBack_generic hbase (halias _ (by simp [names])) hne (fun t ht => ?_) htight
      refine ih t ht fun name hname => halias name ?_
      rw [names, List.mem_cons, mem_namesOfAll]
      exact Or.inr ⟨t, ht, hname⟩

/-! ## Reading and printing -/

/-- **Reading and printing are inverse to each other.**  Without aliases only readable types
are read; and the text of a readable type is read as that type, with any aliases none of
which is a name in it. -/
theorem resolve_text_inverse :
    (∀ expression t, resolve [] expression = .ok t → t.Readable) ∧
      ∀ (t : JavaType) (aliases : Aliases), t.Readable →
        (∀ pair ∈ aliases, pair.1 ∉ t.names) → resolve aliases t.text = .ok t := by
  refine ⟨fun expression t h => (resolve_eq_ok_iff.1 h).readable_and_isTight.1, ?_⟩
  intro t aliases ht halias
  have hfind : ∀ name ∈ t.names, aliases.find? name = none := by
    intro name hname
    refine List.lookup_eq_none_iff.2 fun pair hpair => ?_
    rw [bne_iff_ne]
    rintro rfl
    exact halias pair hpair hname
  exact resolve_eq_ok_iff.2 (ht.readsBack hfind).denotes

/-- A list of arrays of a class. -/
def listOfArrays : JavaType :=
  generic "List" [array (named "Foo")]

/-- A map from texts to such lists. -/
def mapOfLists : JavaType :=
  generic "Map" [named "String", listOfArrays]

theorem readable_listOfArrays : listOfArrays.Readable :=
  .generic (by decide) (by decide) (by simpa using .array (.named (by decide))) (by decide)

theorem readable_mapOfLists : mapOfLists.Readable :=
  .generic (by decide) (by decide)
    (by simpa using ⟨.named (by decide), readable_listOfArrays⟩) (by decide)

/-- Blanks that are not in the text of the type do not matter. -/
theorem resolve_mapOfLists : resolve [] " Map<String,List< Foo[ ]>> " = .ok mapOfLists := by
  have hparts : trim " Map<String,List< Foo[ ]>> ".toList =
      "Map".toList ++ '<' :: "String,List< Foo[ ]>".toList ++ '>' :: [] := by decide
  have hstring : Denotes [] "String".toList (named "String") :=
    PlainName.denotes (by decide) rfl
  have hlist : Denotes [] "List<Foo[]>".toList listOfArrays :=
    (readable_listOfArrays.readsBack fun _ _ => rfl).denotes
  refine resolve_eq_ok_iff.2 (.generic ⟨by decide, by decide⟩ (by decide) hparts (by decide)
    (by decide) (by decide) ?_ (PlainName.denotes (by decide) rfl))
  have hpieces : splitArguments "String,List< Foo[ ]>".toList =
      ["String".toList, "List<Foo[]>".toList] := by decide
  intro piece t hmem
  rw [hpieces] at hmem
  rcases List.mem_pair.1 hmem with h | h <;> obtain ⟨rfl, rfl⟩ := Prod.mk.inj h
  · exact hstring
  · exact hlist

/-- The map is read from an expression with other blanks, and from its own text where there
is an alias for another name. -/
theorem resolve_text_inverse_mapOfLists :
    resolve [] " Map<String,List< Foo[ ]>> " = .ok mapOfLists ∧
      mapOfLists.text = "Map<String, List<Foo[]>>" ∧ mapOfLists.Readable ∧
        resolve [("User", named "com.example.User")] mapOfLists.text = .ok mapOfLists :=
  ⟨resolve_mapOfLists, by decide, resolve_text_inverse.1 _ _ resolve_mapOfLists,
    resolve_text_inverse.2 _ _ readable_mapOfLists (by decide)⟩

end JavaType
end ResourceStubs
