import ResourceStubs.Symbol.Table

/-!
# Lists that ascend by their keys

A list of pairs that ascends strictly by its first components is determined by
what is found in it, and `alterAscending` is the one operation that writes to it.

* `lookup_alterAscending`: the key that is written has the new value, and every
  other key has what it had.
* `Ascending.alter`: a write keeps the order.
* `Ascending.ext`: two ascending lists in which the same is found are equal.

`insertAscending` is the same operation on symbols that carry their key with them.
`keyed` writes the key in front of each, and `keyed_insertAscending` is the
translation.
-/

namespace ResourceStubs

open Std

section Pairs

variable {α : Type} {β : Type} [Ord α]

/-- Every key stands strictly before all later ones. -/
def Ascending (l : List (α × β)) : Prop :=
  l.Pairwise fun x y => compare x.1 y.1 = .lt

theorem ascending_nil : Ascending ([] : List (α × β)) :=
  List.Pairwise.nil

theorem ascending_cons {x : α × β} {l : List (α × β)} :
    Ascending (x :: l) ↔ (∀ y ∈ l, compare x.1 y.1 = .lt) ∧ Ascending l :=
  List.pairwise_cons

theorem ne_of_compare_eq_lt [LawfulEqOrd α] {k k' : α} (h : compare k k' = .lt) : k ≠ k' := by
  rintro rfl
  have hrefl : compare k k = .eq := ReflCmp.compare_self
  rw [hrefl] at h
  exact absurd h (by simp)

theorem ne_of_compare_eq_gt [LawfulEqOrd α] {k k' : α} (h : compare k k' = .gt) : k ≠ k' := by
  rintro rfl
  have hrefl : compare k k = .eq := ReflCmp.compare_self
  rw [hrefl] at h
  exact absurd h (by simp)

omit [Ord α] in
theorem lookup_cons_of_ne [BEq α] [LawfulBEq α] {k k' : α} (h : k' ≠ k) (v : β)
    (l : List (α × β)) : ((k, v) :: l).lookup k' = l.lookup k' := by
  have hb : (k' == k) = false := by simpa using h
  rw [List.lookup_cons, hb]

omit [Ord α] in
/-- Values may be changed pair by pair before they are looked up, or after. -/
theorem lookup_map_pairs {γ : Type} [BEq α] [LawfulBEq α] (change : α → β → γ)
    (l : List (α × β)) (k : α) :
    (l.map fun x => (x.1, change x.1 x.2)).lookup k = (l.lookup k).map (change k) := by
  induction l with
  | nil => rfl
  | cons x l ih =>
      rw [List.map_cons]
      by_cases h : k = x.1
      · rw [h, List.lookup_cons_self, List.lookup_cons_self, Option.map_some]
      · rw [lookup_cons_of_ne h, lookup_cons_of_ne h, ih]

variable [LawfulEqOrd α]

/-- What a write puts into a list is the new pair or was there. -/
theorem mem_alterAscending {key : α} {change : Option β → β} {l : List (α × β)} {x : α × β}
    (h : x ∈ alterAscending key change l) : x.1 = key ∨ x ∈ l := by
  induction l with
  | nil =>
      rw [alterAscending, List.mem_singleton] at h
      exact Or.inl (by rw [h])
  | cons y l ih =>
      obtain ⟨k, v⟩ := y
      rw [alterAscending] at h
      split at h
      · rcases List.mem_cons.1 h with rfl | h
        · exact Or.inl rfl
        · exact Or.inr h
      · rename_i heq
        rcases List.mem_cons.1 h with rfl | h
        · exact Or.inl (LawfulEqCmp.eq_of_compare heq).symm
        · exact Or.inr (List.mem_cons_of_mem _ h)
      · rcases List.mem_cons.1 h with rfl | h
        · exact Or.inr List.mem_cons_self
        · exact (ih h).imp_right (List.mem_cons_of_mem _)

variable [TransOrd α]

theorem Ascending.alter {l : List (α × β)} (hl : Ascending l) (key : α) (change : Option β → β) :
    Ascending (alterAscending key change l) := by
  induction l with
  | nil =>
      exact ascending_cons.2 ⟨by simp, ascending_nil⟩
  | cons y l ih =>
      obtain ⟨k, v⟩ := y
      obtain ⟨hlt, hl'⟩ := ascending_cons.1 hl
      rw [alterAscending]
      split
      · rename_i hkey
        refine ascending_cons.2 ⟨fun x hx => ?_, hl⟩
        rcases List.mem_cons.1 hx with rfl | hx
        · exact hkey
        · exact TransCmp.lt_trans hkey (hlt x hx)
      · exact ascending_cons.2 ⟨hlt, hl'⟩
      · rename_i hkey
        refine ascending_cons.2 ⟨fun x hx => ?_, ih hl'⟩
        rcases mem_alterAscending hx with h | h
        · rw [h]
          exact OrientedCmp.lt_of_gt hkey
        · exact hlt x h

variable [BEq α] [LawfulBEq α]

omit [TransOrd α] in
/-- Below the first key of an ascending list nothing is found. -/
theorem lookup_eq_none_of_lt {key : α} {l : List (α × β)}
    (h : ∀ y ∈ l, compare key y.1 = .lt) : l.lookup key = none := by
  rw [List.lookup_eq_none_iff]
  intro y hy
  simpa using ne_of_compare_eq_lt (h y hy)

/-- **Reading after a write.**  The key that is written has the new value, and every
other key has what it had. -/
theorem lookup_alterAscending {l : List (α × β)} (hl : Ascending l) (key : α)
    (change : Option β → β) (k' : α) [Decidable (k' = key)] :
    (alterAscending key change l).lookup k' =
      if k' = key then some (change (l.lookup key)) else l.lookup k' := by
  induction l with
  | nil =>
      rw [alterAscending]
      split
      · rename_i h
        rw [h, List.lookup_cons_self, List.lookup_nil]
      · rename_i h
        rw [lookup_cons_of_ne h]
  | cons y l ih =>
      obtain ⟨k, v⟩ := y
      obtain ⟨hlt, hl'⟩ := ascending_cons.1 hl
      rw [alterAscending]
      split
      · -- the key belongs in front, so nothing was found for it
        rename_i hkey
        have hnone : ((k, v) :: l).lookup key = none := by
          refine lookup_eq_none_of_lt fun x hx => ?_
          rcases List.mem_cons.1 hx with rfl | hx
          · exact hkey
          · exact TransCmp.lt_trans hkey (hlt x hx)
        rw [hnone]
        split
        · rename_i h
          rw [h, List.lookup_cons_self]
        · rename_i h
          rw [lookup_cons_of_ne h]
      · rename_i hkey
        have hk : key = k := LawfulEqCmp.eq_of_compare hkey
        subst hk
        rw [List.lookup_cons_self]
        split
        · rename_i h
          rw [h, List.lookup_cons_self]
        · rename_i h
          rw [lookup_cons_of_ne h, lookup_cons_of_ne h]
      · rename_i hkey
        have hk : key ≠ k := ne_of_compare_eq_gt hkey
        rw [lookup_cons_of_ne hk]
        by_cases h : k' = k
        · subst h
          rw [List.lookup_cons_self, List.lookup_cons_self, if_neg (Ne.symm hk)]
        · rw [lookup_cons_of_ne h, lookup_cons_of_ne h, ih hl']

/-- In an ascending list every pair is found at its key. -/
theorem Ascending.lookup_eq_some_iff {l : List (α × β)} (hl : Ascending l) {k : α} {v : β} :
    l.lookup k = some v ↔ (k, v) ∈ l := by
  induction l with
  | nil => simp
  | cons y l ih =>
      obtain ⟨k₀, v₀⟩ := y
      obtain ⟨hlt, hl'⟩ := ascending_cons.1 hl
      by_cases h : k = k₀
      · subst h
        rw [List.lookup_cons_self, List.mem_cons]
        constructor
        · intro hv
          exact Or.inl (by rw [Option.some.inj hv])
        · rintro (hv | hv)
          · rw [(Prod.mk.inj hv).2]
          · exact absurd rfl (ne_of_compare_eq_lt (hlt (k, v) hv))
      · rw [lookup_cons_of_ne h, ih hl', List.mem_cons]
        constructor
        · exact Or.inr
        · rintro (hv | hv)
          · exact absurd (Prod.mk.inj hv).1 h
          · exact hv

/-- **Extensionality.**  Two ascending lists in which the same is found are equal. -/
theorem Ascending.ext {l m : List (α × β)} (hl : Ascending l) (hm : Ascending m)
    (h : ∀ k, l.lookup k = m.lookup k) : l = m := by
  induction l generalizing m with
  | nil =>
      cases m with
      | nil => rfl
      | cons y m =>
          have hy := h y.1
          rw [List.lookup_nil, List.lookup_cons_self] at hy
          exact absurd hy (by simp)
  | cons x l ih =>
      cases m with
      | nil =>
          have hx := h x.1
          rw [List.lookup_nil, List.lookup_cons_self] at hx
          exact absurd hx (by simp)
      | cons y m =>
          obtain ⟨hxl, hl'⟩ := ascending_cons.1 hl
          obtain ⟨hym, hm'⟩ := ascending_cons.1 hm
          have hx : x ∈ y :: m := by
            rw [← hm.lookup_eq_some_iff, ← h, List.lookup_cons_self]
          have hy : y ∈ x :: l := by
            rw [← hl.lookup_eq_some_iff, h, List.lookup_cons_self]
          -- each head is in the other list, so neither stands before the other
          have hxy : x = y := by
            rcases List.mem_cons.1 hx with hx | hx
            · exact hx
            · rcases List.mem_cons.1 hy with hy | hy
              · exact hy.symm
              · have h₁ := OrientedCmp.gt_of_lt (hym x hx)
                rw [hxl y hy] at h₁
                exact absurd h₁ (by simp)
          subst hxy
          congr 1
          refine ih hl' hm' fun k => ?_
          by_cases hk : k = x.1
          · subst hk
            rw [lookup_eq_none_of_lt hxl, lookup_eq_none_of_lt hym]
          · have hk' := h k
            rwa [lookup_cons_of_ne hk, lookup_cons_of_ne hk] at hk'

end Pairs

/-! ## Symbols in the order of their names -/

/-- The symbols with their names in front. -/
def keyed (bucket : List SymbolEntry) : List (String × SymbolEntry) :=
  bucket.map fun e => (e.name, e)

/-- The symbols stand in the order of their names, and no name comes twice. -/
def AscendingByName (bucket : List SymbolEntry) : Prop :=
  Ascending (keyed bucket)

theorem keyed_injective {b c : List SymbolEntry} (h : keyed b = keyed c) : b = c := by
  have h' := congrArg (List.map Prod.snd) h
  rw [keyed, keyed, List.map_map, List.map_map] at h'
  simpa [Function.comp_def] using h'

/-- To put a symbol into a bucket is to write it at its name, unless the name is
there. -/
theorem keyed_insertAscending (e : SymbolEntry) (bucket : List SymbolEntry) :
    keyed (insertAscending e bucket) =
      alterAscending e.name (fun known => known.getD e) (keyed bucket) := by
  induction bucket with
  | nil => rfl
  | cons x bucket ih =>
      rw [insertAscending, keyed, keyed, List.map_cons, alterAscending]
      cases hc : compare e.name x.name with
      | lt => rfl
      | eq => rfl
      | gt =>
          simp only [List.map_cons]
          exact congrArg _ ih

theorem find?_eq_lookup_keyed (bucket : List SymbolEntry) (name : String) :
    bucket.find? (fun e => e.name == name) = (keyed bucket).lookup name := by
  induction bucket with
  | nil => rfl
  | cons x bucket ih =>
      rw [keyed, List.map_cons]
      by_cases h : name = x.name
      · subst h
        rw [List.lookup_cons_self, List.find?_cons_of_pos (by simp)]
      · rw [lookup_cons_of_ne h, List.find?_cons_of_neg (by simpa using Ne.symm h)]
        exact ih

theorem ascendingByName_nil : AscendingByName [] :=
  ascending_nil

theorem AscendingByName.insert {bucket : List SymbolEntry} (h : AscendingByName bucket)
    (e : SymbolEntry) : AscendingByName (insertAscending e bucket) := by
  rw [AscendingByName, keyed_insertAscending]
  exact h.alter _ _

/-- The symbol that is there stays, and the new one is found if there was none. -/
theorem find?_insertAscending {bucket : List SymbolEntry} (h : AscendingByName bucket)
    (e : SymbolEntry) (name : String) :
    (insertAscending e bucket).find? (fun x => x.name == name) =
      (bucket.find? fun x => x.name == name).or (if e.name = name then some e else none) := by
  rw [find?_eq_lookup_keyed, find?_eq_lookup_keyed, keyed_insertAscending,
    lookup_alterAscending h]
  by_cases hn : name = e.name
  · subst hn
    rw [if_pos rfl, if_pos rfl]
    cases (keyed bucket).lookup e.name <;> rfl
  · rw [if_neg hn, if_neg (Ne.symm hn), Option.or_none]

theorem mem_insertAscending {e x : SymbolEntry} {bucket : List SymbolEntry}
    (h : x ∈ insertAscending e bucket) : x = e ∨ x ∈ bucket := by
  induction bucket with
  | nil => exact Or.inl (List.mem_singleton.1 h)
  | cons y bucket ih =>
      rw [insertAscending] at h
      split at h
      · exact (List.mem_cons.1 h)
      · exact Or.inr h
      · rcases List.mem_cons.1 h with rfl | h
        · exact Or.inr List.mem_cons_self
        · exact (ih h).imp_right (List.mem_cons_of_mem _)

theorem insertAscending_ne_nil (e : SymbolEntry) (bucket : List SymbolEntry) :
    insertAscending e bucket ≠ [] := by
  cases bucket with
  | nil => simp [insertAscending]
  | cons x bucket =>
      rw [insertAscending]
      split <;> simp

/-- **Extensionality of buckets.** -/
theorem AscendingByName.ext {b c : List SymbolEntry} (hb : AscendingByName b)
    (hc : AscendingByName c)
    (h : ∀ name, b.find? (fun e => e.name == name) = c.find? fun e => e.name == name) : b = c := by
  refine keyed_injective (Ascending.ext hb hc fun name => ?_)
  rw [← find?_eq_lookup_keyed, ← find?_eq_lookup_keyed, h]

end ResourceStubs
