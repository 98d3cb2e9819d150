import ResourceStubs.Java.Name
import ResourceStubs.Proofs.Text.Pieces

/-!
# What names lose on their way into the code

Camel case drops underscores and changes the case of letters, and different names can come
to be one.  No underscore is left (`underscore_notMem_camelCase`), which keeps the names of
a layout apart from the fixed ones that begin with an underscore.  Other characters without
case are neither made nor lost (`mem_camelCase_iff`, `mem_bindingClassName_iff`).

Names in snake case, whose words begin with a small letter and have no capital one, lose
nothing: a capital letter marks the beginning of a word, and `words` reads the name back
(`words_joinedPieces`, `words_camelCase`).  So they stay as different as they were
(`bindingClassName_inj`, `camelCase_inj`, `capitalize_camelCase_inj`).
-/

namespace ResourceStubs

namespace Text

/-- The only code point of a character other than zero is its own. -/
theorem eq_of_ofNat_eq {n : Nat} {x : Char} (h : Char.ofNat n = x) (hx : x.toNat ≠ 0) :
    n = x.toNat := by
  by_cases hvalid : n.isValidChar
  · rw [Char.ofNat, dif_pos hvalid] at h
    rw [← h]
    rfl
  · rw [Char.ofNat, dif_neg hvalid] at h
    rw [← h] at hx
    exact absurd rfl hx

/-- A character is in no other character's case form, if no expansion has it and no run
leads to it. -/
theorem notMem_caseForm {runs : List CaseRun} {expansions : List (Nat × List Nat)} {x c : Char}
    (hne : x ≠ c) (hx : x.toNat ≠ 0) (hexpansions : ∀ e ∈ expansions, x.toNat ∉ e.2)
    (hruns : ∀ r ∈ runs, r.covers (x.toNat - r.shift).toNat = false) :
    x ∉ caseForm runs expansions c := by
  intro hmem
  rw [caseForm] at hmem
  split at hmem
  · rename_i points hlookup
    obtain ⟨before, after, hsplit, -⟩ := List.lookup_eq_some_iff.1 hlookup
    obtain ⟨n, hn, hnx⟩ := List.mem_map.1 hmem
    refine hexpansions (c.toNat, points) ?_ (eq_of_ofNat_eq hnx hx ▸ hn)
    rw [hsplit]
    exact List.mem_append_right _ List.mem_cons_self
  · split at hmem
    · rename_i r hr
      have hpoint := eq_of_ofNat_eq (List.mem_singleton.1 hmem).symm hx
      have hc : (x.toNat - r.shift).toNat = c.toNat := by omega
      have hcovers : r.covers c.toNat = true :=
        List.find?_some (p := fun run : CaseRun => run.covers c.toNat) hr
      rw [← hc, hruns r (List.mem_of_find?_eq_some hr)] at hcovers
      exact absurd hcovers (by simp)
    · exact hne (List.mem_singleton.1 hmem)

/-- A character without letter case: it is its own case form, and no other character's. -/
structure IsCaseless (x : Char) : Prop where
  ne_zero : x.toNat ≠ 0
  upper_eq : upper x = [x]
  lower_eq : lower x = [x]
  notMem_expansions : ∀ e ∈ upperExpansions ++ lowerExpansions, x.toNat ∉ e.2
  not_covers : ∀ r ∈ upperRuns ++ lowerRuns, r.covers (x.toNat - r.shift).toNat = false

instance (x : Char) : Decidable (IsCaseless x) :=
  decidable_of_iff (x.toNat ≠ 0 ∧ upper x = [x] ∧ lower x = [x] ∧
      (∀ e ∈ upperExpansions ++ lowerExpansions, x.toNat ∉ e.2) ∧
      ∀ r ∈ upperRuns ++ lowerRuns, r.covers (x.toNat - r.shift).toNat = false)
    ⟨fun h => ⟨h.1, h.2.1, h.2.2.1, h.2.2.2.1, h.2.2.2.2⟩,
      fun h => ⟨h.ne_zero, h.upper_eq, h.lower_eq, h.notMem_expansions, h.not_covers⟩⟩

theorem IsCaseless.mem_upper_iff {x c : Char} (h : IsCaseless x) : x ∈ upper c ↔ x = c := by
  constructor
  · intro hmem
    refine Decidable.byContradiction fun hne => ?_
    exact notMem_caseForm hne h.ne_zero
      (fun e he => h.notMem_expansions e (List.mem_append_left _ he))
      (fun r hr => h.not_covers r (List.mem_append_left _ hr)) hmem
  · rintro rfl
    rw [h.upper_eq]
    exact List.mem_singleton_self x

theorem IsCaseless.mem_lower_iff {x c : Char} (h : IsCaseless x) : x ∈ lower c ↔ x = c := by
  constructor
  · intro hmem
    refine Decidable.byContradiction fun hne => ?_
    exact notMem_caseForm hne h.ne_zero
      (fun e he => h.notMem_expansions e (List.mem_append_right _ he))
      (fun r hr => h.not_covers r (List.mem_append_right _ hr)) hmem
  · rintro rfl
    rw [h.lower_eq]
    exact List.mem_singleton_self x

theorem IsCaseless.mem_capitalizeChars_iff {x : Char} (h : IsCaseless x) {cs : List Char} :
    x ∈ capitalizeChars cs ↔ x ∈ cs := by
  cases cs with
  | nil => rfl
  | cons c cs => rw [capitalizeChars_cons, List.mem_append, h.mem_upper_iff, List.mem_cons]

theorem isCaseless_underscore : IsCaseless '_' := by decide +kernel

/-- A small letter has one capital letter, which has it as its small letter. -/
structure HasCapital (c : Char) : Prop where
  upper : upper c = [c.toUpper]
  lower : lower c.toUpper = [c]
  toLower : c.toUpper.toLower = c
  isUpper : c.toUpper.isUpper = true
  not_isUpper : c.isUpper = false

instance (c : Char) : Decidable (HasCapital c) :=
  decidable_of_iff (upper c = [c.toUpper] ∧ lower c.toUpper = [c] ∧ c.toUpper.toLower = c ∧
      c.toUpper.isUpper = true ∧ c.isUpper = false)
    ⟨fun h => ⟨h.1, h.2.1, h.2.2.1, h.2.2.2.1, h.2.2.2.2⟩,
      fun h => ⟨h.upper, h.lower, h.toLower, h.isUpper, h.not_isUpper⟩⟩

theorem hasCapital_of_isLower {c : Char} (h : c.isLower = true) : HasCapital c := by
  have hall : ∀ i : Fin 26, HasCapital (Char.ofNat (97 + i)) := by decide +kernel
  have hbounds : 97 ≤ c.toNat ∧ c.toNat ≤ 122 := by
    obtain ⟨hlow, hhigh⟩ := Bool.and_eq_true_iff.1 h
    exact ⟨of_decide_eq_true hlow, of_decide_eq_true hhigh⟩
  have hc : Char.ofNat (97 + (c.toNat - 97)) = c := by
    rw [Nat.add_sub_cancel' hbounds.1, Char.ofNat_toNat]
  have hletter := hall ⟨c.toNat - 97, by omega⟩
  rwa [hc] at hletter

end Text

namespace Java

open Text

theorem underscore_notMem_joinedPieces (name : String) : '_' ∉ joinedPieces name := by
  intro h
  obtain ⟨piece, hpiece, hmem⟩ := List.mem_flatMap.1 h
  exact notMem_of_mem_pieces hpiece (isCaseless_underscore.mem_capitalizeChars_iff.1 hmem)

section Caseless

variable {x : Char} {name : String}

/-- But for underscores, joined words have the characters without case that the name has. -/
theorem mem_joinedPieces_iff (h : IsCaseless x) (hne : x ≠ '_') :
    x ∈ joinedPieces name ↔ x ∈ name.toList := by
  rw [joinedPieces, List.mem_flatMap, mem_iff_exists_mem_pieces hne]
  exact exists_congr fun piece => and_congr_right fun _ => h.mem_capitalizeChars_iff

theorem mem_camelCase_iff (h : IsCaseless x) :
    x ∈ (camelCase name).toList ↔ x ∈ joinedPieces name := by
  rw [camelCase]
  cases hjoined : joinedPieces name with
  | nil => rfl
  | cons c cs =>
      dsimp only
      rw [String.toList_ofList, List.mem_append, h.mem_lower_iff, List.mem_cons]

theorem mem_capitalize_iff (h : IsCaseless x) :
    x ∈ (capitalize name).toList ↔ x ∈ name.toList := by
  rw [capitalize, String.toList_ofList, h.mem_capitalizeChars_iff]

theorem mem_bindingClassName_iff (h : IsCaseless x) (hne : x ≠ '_')
    (hsuffix : x ∉ "Binding".toList) :
    x ∈ (bindingClassName name).toList ↔ x ∈ name.toList := by
  rw [bindingClassName, String.toList_append, String.toList_ofList, List.mem_append,
    or_iff_left hsuffix, mem_joinedPieces_iff h hne]

end Caseless

/-- **Camel case has no underscores.** -/
theorem underscore_notMem_camelCase (name : String) : '_' ∉ (camelCase name).toList :=
  mt (mem_camelCase_iff isCaseless_underscore).1 (underscore_notMem_joinedPieces name)

/-! ## Names in snake case -/

/-- Does every word between underscores begin with a small letter, and does none have a
capital one? -/
def IsSnakeCase (name : String) : Prop :=
  ∀ piece ∈ pieces '_' name.toList, ∃ c cs, piece = c :: cs ∧ c.isLower = true ∧
    ∀ x ∈ cs, x.isUpper = false

/-- The text in small letters, with an underscore where a capital one was. -/
def words (cs : List Char) : List Char :=
  cs.flatMap fun c => if c.isUpper then ['_', c.toLower] else [c]

theorem words_append (cs ds : List Char) : words (cs ++ ds) = words cs ++ words ds :=
  List.flatMap_append

theorem words_of_isUpper {c : Char} (h : c.isUpper = true) (cs : List Char) :
    words (c :: cs) = '_' :: c.toLower :: words cs := by
  rw [words, List.flatMap_cons, if_pos h]
  rfl

theorem words_eq_self {cs : List Char} (h : ∀ x ∈ cs, x.isUpper = false) : words cs = cs := by
  induction cs with
  | nil => rfl
  | cons c cs ih =>
      obtain ⟨hc, hcs⟩ := List.forall_mem_cons.1 h
      rw [words, List.flatMap_cons, if_neg (by simp [hc]), ← words, ih hcs]
      rfl

theorem words_capitalizeChars {c : Char} {cs : List Char} (hc : c.isLower = true)
    (hcs : ∀ x ∈ cs, x.isUpper = false) : words (capitalizeChars (c :: cs)) = '_' :: c :: cs := by
  have hcapital := hasCapital_of_isLower hc
  rw [capitalizeChars_cons, hcapital.upper, List.singleton_append,
    words_of_isUpper hcapital.isUpper, hcapital.toLower, words_eq_self hcs]

/-- **Joined words can be told apart.** -/
theorem words_joinedPieces {name : String} (h : IsSnakeCase name) :
    words (joinedPieces name) = '_' :: name.toList := by
  have hpieces : (pieces '_' name.toList).flatMap (fun piece => '_' :: piece) =
      '_' :: name.toList := flatMap_cons_pieces name.toList
  have hwords : ∀ ps : List (List Char), (∀ piece ∈ ps, ∃ c cs, piece = c :: cs ∧
      c.isLower = true ∧ ∀ x ∈ cs, x.isUpper = false) →
        words (ps.flatMap capitalizeChars) = ps.flatMap fun piece => '_' :: piece := by
    intro ps hps
    induction ps with
    | nil => rfl
    | cons piece ps ih =>
        obtain ⟨hpiece, hrest⟩ := List.forall_mem_cons.1 hps
        obtain ⟨c, cs, rfl, hc, hcs⟩ := hpiece
        rw [List.flatMap_cons, words_append, words_capitalizeChars hc hcs, ih hrest,
          List.flatMap_cons]
  rw [joinedPieces, hwords _ h, hpieces]

theorem bindingClassName_inj {name name' : String} (h : IsSnakeCase name)
    (h' : IsSnakeCase name') (heq : bindingClassName name = bindingClassName name') :
    name = name' := by
  rw [bindingClassName, bindingClassName, String.append_left_inj, String.ofList_inj] at heq
  have hwords := congrArg words heq
  rw [words_joinedPieces h, words_joinedPieces h', List.cons.injEq] at hwords
  exact String.toList_inj.1 hwords.2

/-- In snake case the first word is joined with its first letter in capitals. -/
theorem exists_joinedPieces {name : String} (h : IsSnakeCase name) :
    ∃ c rest, HasCapital c ∧ joinedPieces name = c.toUpper :: rest ∧
      (camelCase name).toList = c :: rest ∧ name.toList = c :: words rest := by
  cases hpieces : pieces '_' name.toList with
  | nil => exact absurd hpieces (pieces_ne_nil _ _)
  | cons piece ps =>
      obtain ⟨c, cs, rfl, hc, hcs⟩ := h piece (hpieces ▸ List.mem_cons_self)
      have hcapital := hasCapital_of_isLower hc
      have hjoined : joinedPieces name =
          c.toUpper :: (cs ++ ps.flatMap capitalizeChars) := by
        rw [joinedPieces, hpieces, List.flatMap_cons, capitalizeChars_cons, hcapital.upper]
        rfl
      have hwords := words_joinedPieces h
      rw [hjoined, words_of_isUpper hcapital.isUpper, hcapital.toLower, List.cons.injEq] at hwords
      refine ⟨c, _, hcapital, hjoined, ?_, hwords.2.symm⟩
      rw [camelCase, hjoined]
      dsimp only
      rw [hcapital.lower, String.toList_ofList, List.singleton_append]

/-- **Camel case can be read back.** -/
theorem words_camelCase {name : String} (h : IsSnakeCase name) :
    words (camelCase name).toList = name.toList := by
  obtain ⟨c, rest, hc, -, hcamel, hname⟩ := exists_joinedPieces h
  rw [hcamel, hname, words, List.flatMap_cons, if_neg (by simp [hc.not_isUpper]), ← words]
  rfl

theorem camelCase_inj {name name' : String} (h : IsSnakeCase name) (h' : IsSnakeCase name')
    (heq : camelCase name = camelCase name') : name = name' := by
  have hwords := congrArg (fun s : String => words s.toList) heq
  rw [words_camelCase h, words_camelCase h'] at hwords
  exact String.toList_inj.1 hwords

/-- Capitals do away with the difference between camel case and the name of a class. -/
theorem toList_capitalize_camelCase {name : String} (h : IsSnakeCase name) :
    (capitalize (camelCase name)).toList = joinedPieces name := by
  obtain ⟨c, rest, hc, hjoined, hcamel, -⟩ := exists_joinedPieces h
  rw [capitalize, hcamel, capitalizeChars_cons, hc.upper, String.toList_ofList,
    hjoined]
  rfl

theorem capitalize_camelCase_inj {name name' : String} (h : IsSnakeCase name)
    (h' : IsSnakeCase name')
    (heq : capitalize (camelCase name) = capitalize (camelCase name')) : name = name' := by
  have hwords := congrArg (fun s : String => words s.toList) heq
  rw [toList_capitalize_camelCase h, toList_capitalize_camelCase h', words_joinedPieces h,
    words_joinedPieces h', List.cons.injEq] at hwords
  exact String.toList_inj.1 hwords.2

end Java
end ResourceStubs
