import ResourceStubs.Proofs.Java.Brackets
import ResourceStubs.Proofs.List.ExceptSteps

/-!
# What a type expression denotes

`Denotes` says it part by part: what stands before a final `[]` is the element of an array,
what stands before the first bracket is a class, what stands between it and the last one
are the arguments, and an expression with neither is a name.

* `resolve_eq_ok_iff`: the reader finds a type if and only if the expression denotes it.

An expression has only one set of parts, since it is cut at the first and the last bracket
(`genericParts?_eq_some_iff`).  The parts are shorter than the expression, which is what
the induction of `denotes_of_resolveChars` is on.
-/

namespace ResourceStubs
namespace JavaType

open Text

/-! ## The parts of an expression -/

variable {cs element base parameters : List Char}

theorem arrayElement?_eq_some_iff :
    arrayElement? cs = some element ↔ cs = element ++ ['[', ']'] := by
  rw [arrayElement?, Option.map_eq_some_iff]
  constructor
  · rintro ⟨rest, hrest, rfl⟩
    rw [← List.reverse_reverse cs, afterStart?_eq_some_iff.1 hrest, List.reverse_append]
    rfl
  · rintro rfl
    refine ⟨element.reverse, afterStart?_eq_some_iff.2 ?_, List.reverse_reverse element⟩
    rw [List.reverse_append]
    rfl

theorem arrayElement?_eq_none_iff : arrayElement? cs = none ↔ ¬['[', ']'] <:+ cs := by
  rw [← not_iff_not, not_not, ← ne_eq, Option.ne_none_iff_exists']
  constructor
  · rintro ⟨element, h⟩
    exact ⟨element, (arrayElement?_eq_some_iff.1 h).symm⟩
  · rintro ⟨element, h⟩
    exact ⟨element, arrayElement?_eq_some_iff.2 h.symm⟩

theorem genericParts?_eq_some_iff :
    genericParts? cs = some (base, parameters) ↔
      ∃ behind, cs = base ++ '<' :: parameters ++ '>' :: behind ∧ '<' ∉ base ∧ '>' ∉ behind := by
  rw [genericParts?]
  constructor
  · intro h
    cases hcut : cutLast? ['>'] cs with
    | none => simp [hcut] at h
    | some parts =>
        obtain ⟨before, behind⟩ := parts
        simp only [hcut] at h
        obtain ⟨rfl, hbase⟩ := cutFirst?_eq_some_iff.1 h
        obtain ⟨rfl, hbehind⟩ := cutLast?_eq_some_iff.1 hcut
        exact ⟨behind, rfl, hbase, hbehind⟩
  · rintro ⟨behind, hcs, hbase, hbehind⟩
    simp only [cutLast?_eq_some_iff.2 ⟨hcs, hbehind⟩]
    exact cutFirst?_eq_some_iff.2 ⟨rfl, hbase⟩

/-- The parts lose their blanks as the whole does. -/
theorem withoutBlanks_of_parts {behind : List Char}
    (hparts : trim cs = base ++ '<' :: parameters ++ '>' :: behind) :
    withoutBlanks cs =
      withoutBlanks base ++ '<' :: (withoutBlanks parameters ++ '>' :: withoutBlanks behind) := by
  have hopen : withoutBlanks ('<' :: parameters) = '<' :: withoutBlanks parameters :=
    List.filter_cons_of_pos (by decide)
  have hclose : withoutBlanks ('>' :: behind) = '>' :: withoutBlanks behind :=
    List.filter_cons_of_pos (by decide)
  rw [← withoutBlanks_trim, hparts, withoutBlanks_append, withoutBlanks_append, hopen, hclose,
    List.append_assoc, List.cons_append]

/-- A balanced expression without parts has no brackets at all. -/
theorem genericParts?_eq_none_iff (h : balanced cs = true) :
    genericParts? cs = none ↔ '<' ∉ cs ∧ '>' ∉ cs := by
  constructor
  · intro hnone
    have hclose : '>' ∉ cs := by
      intro hmem
      obtain ⟨⟨before, behind⟩, hcut⟩ := Option.ne_none_iff_exists'.1
        (mt cutLast?_eq_none_iff.1 (not_not.2 hmem))
      rw [genericParts?, hcut] at hnone
      have hopen : '<' ∉ before := cutFirst?_eq_none_iff.1 hnone
      -- up to the last closing bracket more would be closed than opened
      have hbegin : before ++ ['>'] <+: cs :=
        ⟨behind, by rw [(cutLast?_eq_some_iff.1 hcut).1, List.append_assoc]; rfl⟩
      have hdepth := netDepth_nonneg_of_prefix h hbegin
      rw [netDepth, List.count_append, List.count_append, List.count_eq_zero.2 hopen] at hdepth
      simp at hdepth
      omega
    refine ⟨fun hmem => ?_, hclose⟩
    have hdepth := netDepth_of_balanced h
    rw [netDepth, List.count_eq_zero.2 hclose] at hdepth
    have := List.count_pos_iff.2 hmem
    omega
  · rintro ⟨-, hclose⟩
    rw [genericParts?, cutLast?_eq_none_iff.2 hclose]

theorem length_lt_piecesRoom {pieces : List (List Char)} {piece : List Char}
    (h : piece ∈ pieces) : piece.length < piecesRoom pieces := by
  induction pieces with
  | nil => exact absurd h List.not_mem_nil
  | cons first others ih =>
      rw [piecesRoom]
      rcases List.mem_cons.1 h with rfl | h
      · omega
      · have := ih h
        omega

/-- A piece is no longer than the text that was cut. -/
theorem length_le_of_mem_splitArguments {piece : List Char}
    (h : piece ∈ splitArguments parameters) : piece.length ≤ parameters.length := by
  have hpiece := length_lt_piecesRoom h
  have hroom := piecesRoom_splitArgumentsFrom 0 parameters
  rw [splitArguments] at hpiece
  omega

/-! ## One step of the reader -/

/-- What is asked of an expression before its parts are read. -/
structure IsExpression (cs : List Char) : Prop where
  ne_nil : cs ≠ []
  balanced : balanced cs = true

variable {aliases : Aliases} {t : JavaType}

theorem isExpression_of_resolveChars (h : resolveChars aliases cs = .ok t) :
    IsExpression (trim cs) := by
  rw [resolveChars] at h
  by_cases hnil : trim cs = []
  · simp [hnil] at h
  · cases hbalanced : balanced (trim cs) with
    | true => exact ⟨hnil, hbalanced⟩
    | false => simp [hnil, hbalanced] at h

/-- The parts are looked for in turn, an element first. -/
theorem resolveChars_of_isExpression (hcs : IsExpression (trim cs)) :
    resolveChars aliases cs =
      match arrayElement? (trim cs) with
      | some element => resolveChars aliases element >>= fun t => .ok (array t)
      | none =>
          match genericParts? (trim cs) with
          | some (base, parameters) =>
              resolveArguments aliases (String.ofList (trim cs)) (splitArguments parameters) >>=
                fun arguments => resolveChars aliases base >>= fun
                  | named name => .ok (generic name arguments)
                  | _ => .error (.nonClassBase (String.ofList (trim cs)))
          | none => .ok (leaf aliases (String.ofList (trim cs))) := by
  have hnil : (trim cs).isEmpty = false := by simp [hcs.ne_nil]
  rw [resolveChars]
  simp only [hnil, hcs.balanced]
  cases harray : arrayElement? (trim cs) with
  | some element => rfl
  | none => cases hparts : genericParts? (trim cs) <;> rfl

theorem resolveChars_of_array (hcs : IsExpression (trim cs))
    (harray : arrayElement? (trim cs) = some element) :
    resolveChars aliases cs = .ok t ↔
      ∃ s, resolveChars aliases element = .ok s ∧ t = array s := by
  rw [resolveChars_of_isExpression hcs, harray, bind_eq_ok_iff]
  simp only [Except.ok.injEq, eq_comm]

theorem resolveChars_of_generic (hcs : IsExpression (trim cs))
    (harray : arrayElement? (trim cs) = none)
    (hparts : genericParts? (trim cs) = some (base, parameters)) :
    resolveChars aliases cs = .ok t ↔
      ∃ arguments name,
        resolveArguments aliases (String.ofList (trim cs)) (splitArguments parameters) =
          .ok arguments ∧
        resolveChars aliases base = .ok (named name) ∧ t = generic name arguments := by
  rw [resolveChars_of_isExpression hcs, harray, hparts]
  simp only [bind_eq_ok_iff]
  constructor
  · rintro ⟨arguments, harguments, s, hs, h⟩
    cases s with
    | named name => exact ⟨arguments, name, harguments, hs, (Except.ok.inj h).symm⟩
    | primitive _ | array _ | generic _ _ => cases h
  · rintro ⟨arguments, name, harguments, hname, rfl⟩
    exact ⟨arguments, harguments, named name, hname, rfl⟩

theorem resolveChars_of_leaf (hcs : IsExpression (trim cs))
    (harray : arrayElement? (trim cs) = none) (hparts : genericParts? (trim cs) = none) :
    resolveChars aliases cs = .ok (leaf aliases (String.ofList (trim cs))) := by
  rw [resolveChars_of_isExpression hcs, harray, hparts]

/-- A class with arguments, if it is a class that stands in front of them. -/
def withArguments (expression : String) (arguments : List JavaType) :
    JavaType → Except TypeError JavaType
  | named name => .ok (generic name arguments)
  | _ => .error (.nonClassBase expression)

/-- What is left to do for an expression once its arguments have been cut off. -/
theorem resolveChars_eq_of_generic (aliases : Aliases) (hcs : IsExpression (trim cs))
    (harray : arrayElement? (trim cs) = none)
    (hparts : genericParts? (trim cs) = some (base, parameters)) :
    resolveChars aliases cs =
      resolveArguments aliases (String.ofList (trim cs)) (splitArguments parameters) >>=
        fun arguments => resolveChars aliases base >>=
          withArguments (String.ofList (trim cs)) arguments := by
  simp only [resolveChars_of_isExpression hcs, harray, hparts]
  cases resolveArguments aliases (String.ofList (trim cs)) (splitArguments parameters) with
  | error e => rfl
  | ok arguments =>
      cases resolveChars aliases base with
      | error e => rfl
      | ok s => cases s <;> rfl

theorem resolveChars_nil : resolveChars aliases [] = .error .empty := by
  rw [resolveChars]
  rfl

/-- One more argument in front of others. -/
theorem resolveArguments_cons {expression : String} {piece : List Char}
    {pieces : List (List Char)} (hpiece : piece ≠ []) :
    resolveArguments aliases expression (piece :: pieces) =
      resolveChars aliases piece >>= fun t =>
        resolveArguments aliases expression pieces >>= fun ts => .ok (t :: ts) := by
  rw [resolveArguments, List.isEmpty_eq_false_iff.2 hpiece]
  rfl

/-- **The arguments are the types of the pieces.**  That no piece is empty is asked for only
to report it as such: an empty piece has no type in any case. -/
theorem resolveArguments_eq_ok_iff {expression : String} {pieces : List (List Char)}
    {arguments : List JavaType} :
    resolveArguments aliases expression pieces = .ok arguments ↔
      List.Forall₂ (fun piece t => resolveChars aliases piece = .ok t) pieces arguments := by
  induction pieces generalizing arguments with
  | nil =>
      rw [resolveArguments, List.forall₂_nil_left_iff]
      exact ⟨fun h => (Except.ok.inj h).symm, fun h => by rw [h]⟩
  | cons piece pieces ih =>
      rw [List.forall₂_cons_left_iff, resolveArguments]
      cases piece with
      | nil =>
          simp only [resolveChars_nil, List.isEmpty_nil, if_true]
          constructor
          · intro h
            exact absurd h throw_ne_ok
          · rintro ⟨t, ts, ht, -⟩
            cases ht
      | cons c piece =>
          simp only [List.isEmpty_cons, Bool.false_eq_true, if_false, bind_eq_ok_iff, ih]
          constructor
          · rintro ⟨t, ht, ts, hts, h⟩
            exact ⟨t, ts, ht, hts, (Except.ok.inj h).symm⟩
          · rintro ⟨t, ts, ht, hts, rfl⟩
            exact ⟨t, ht, ts, hts, rfl⟩

/-! ## What an expression denotes -/

/-- The type that an expression denotes.  The blanks around the expression do not count, and
of an expression with arguments what stands behind its last bracket does not count either. -/
inductive Denotes (aliases : Aliases) : List Char → JavaType → Prop
  | array {cs element : List Char} {t : JavaType} (hcs : IsExpression (trim cs))
      (hparts : trim cs = element ++ ['[', ']']) (helement : Denotes aliases element t) :
      Denotes aliases cs (array t)
  | generic {cs base parameters behind : List Char} {name : String} {arguments : List JavaType}
      (hcs : IsExpression (trim cs)) (harray : ¬['[', ']'] <:+ trim cs)
      (hparts : trim cs = base ++ '<' :: parameters ++ '>' :: behind)
      (hopen : '<' ∉ base) (hclose : '>' ∉ behind)
      (hlength : (splitArguments parameters).length = arguments.length)
      (harguments : ∀ piece t, (piece, t) ∈ (splitArguments parameters).zip arguments →
        Denotes aliases piece t)
      (hbase : Denotes aliases base (named name)) :
      Denotes aliases cs (generic name arguments)
  | leaf {cs : List Char} (hcs : IsExpression (trim cs)) (harray : ¬['[', ']'] <:+ trim cs)
      (hopen : '<' ∉ trim cs) (hclose : '>' ∉ trim cs) :
      Denotes aliases cs (leaf aliases (String.ofList (trim cs)))

theorem Denotes.isExpression (h : Denotes aliases cs t) : IsExpression (trim cs) := by
  cases h <;> assumption

/-- What an expression denotes, the reader finds. -/
theorem Denotes.resolveChars_eq (h : Denotes aliases cs t) : resolveChars aliases cs = .ok t := by
  induction h with
  | array hcs hparts _ ih =>
      exact (resolveChars_of_array hcs (arrayElement?_eq_some_iff.2 hparts)).2 ⟨_, ih, rfl⟩
  | generic hcs harray hparts hopen hclose hlength _ _ ihArguments ihBase =>
      refine (resolveChars_of_generic hcs (arrayElement?_eq_none_iff.2 harray)
        (genericParts?_eq_some_iff.2 ⟨_, hparts, hopen, hclose⟩)).2 ⟨_, _, ?_, ihBase, rfl⟩
      exact resolveArguments_eq_ok_iff.2 (List.forall₂_iff_zip.2 ⟨hlength, ihArguments _ _⟩)
  | leaf hcs harray hopen hclose =>
      exact resolveChars_of_leaf hcs (arrayElement?_eq_none_iff.2 harray)
        ((genericParts?_eq_none_iff hcs.balanced).2 ⟨hopen, hclose⟩)

/-- What the reader finds, the expression denotes, by induction on its length. -/
theorem denotes_of_resolveChars (cs : List Char) :
    ∀ t, resolveChars aliases cs = .ok t → Denotes aliases cs t := by
  induction hn : cs.length using Nat.strongRecOn generalizing cs with
  | ind n ih =>
      subst hn
      intro t h
      have hcs := isExpression_of_resolveChars h
      have htrim := length_trim_le cs
      cases harray : arrayElement? (trim cs) with
      | some element =>
          have hlength := length_arrayElement? harray
          obtain ⟨s, hs, rfl⟩ := (resolveChars_of_array hcs harray).1 h
          exact .array hcs (arrayElement?_eq_some_iff.1 harray)
            (ih _ (by omega) element rfl s hs)
      | none =>
          cases hparts : genericParts? (trim cs) with
          | some parts =>
              obtain ⟨base, parameters⟩ := parts
              have hlength := length_genericParts? hparts
              obtain ⟨arguments, name, harguments, hname, rfl⟩ :=
                (resolveChars_of_generic hcs harray hparts).1 h
              obtain ⟨behind, hcut, hopen, hclose⟩ := genericParts?_eq_some_iff.1 hparts
              obtain ⟨hcount, hpieces⟩ :=
                List.forall₂_iff_zip.1 (resolveArguments_eq_ok_iff.1 harguments)
              refine .generic hcs (arrayElement?_eq_none_iff.1 harray) hcut hopen hclose hcount ?_
                (ih _ (by omega) base rfl _ hname)
              intro piece s hmem
              have hpiece := length_le_of_mem_splitArguments (List.of_mem_zip hmem).1
              exact ih _ (by omega) piece rfl s (hpieces hmem)
          | none =>
              obtain ⟨hopen, hclose⟩ := (genericParts?_eq_none_iff hcs.balanced).1 hparts
              rw [resolveChars_of_leaf hcs harray hparts] at h
              cases h
              exact .leaf hcs (arrayElement?_eq_none_iff.1 harray) hopen hclose

/-- **The reader finds a type if and only if the expression denotes it.** -/
theorem resolve_eq_ok_iff {expression : String} :
    resolve aliases expression = .ok t ↔ Denotes aliases expression.toList t :=
  ⟨denotes_of_resolveChars expression.toList t, Denotes.resolveChars_eq⟩

end JavaType
end ResourceStubs
