import Mathlib.Data.List.Nodup
import ResourceStubs.Binding.Layout
import ResourceStubs.Binding.Selection
import ResourceStubs.Symbol.Contribution

/-!
# Keeping the first of each key

Members of a group, bindings of a layout, variants of a layout and selected layouts
are all collected the same way: what comes is put at the end, unless something with
its key is there.  `keepFirst` is that step, and `firsts` its run over a list.

* `find?_firsts`: at a key, the run has what was kept, or else the first that came.
* `mem_firsts_iff`: nothing else is in it.
* `nodup_firsts`: no key is in it twice.
* `firsts_eq_self`: a run over keys that are all there changes nothing.
* `firsts_firsts`: a run over what another run has kept is one run over both.
* `firsts_nil_eq_firstOfEach`: a run from nothing keeps the first of each key, in order.

The four steps of the library are instances of it, as the last part says.
-/

namespace ResourceStubs

section FirstOfEach

variable {α : Type} {κ : Type} [BEq κ] [LawfulBEq κ] (key : α → κ)

/-- Puts `x` at the end, unless something with its key is there. -/
def keepFirst (kept : List α) (x : α) : List α :=
  if kept.any fun k => key k == key x then kept else kept ++ [x]

/-- Puts all of `l` at the end, one after the other. -/
def firsts (kept l : List α) : List α :=
  l.foldl (keepFirst key) kept

variable {key}

omit [LawfulBEq κ] in
@[simp] theorem firsts_nil (kept : List α) : firsts key kept [] = kept := rfl

omit [LawfulBEq κ] in
@[simp] theorem firsts_cons (kept : List α) (x : α) (l : List α) :
    firsts key kept (x :: l) = firsts key (keepFirst key kept x) l := rfl

theorem keepFirst_of_mem {kept : List α} {x : α} (h : key x ∈ kept.map key) :
    keepFirst key kept x = kept := by
  obtain ⟨k, hk, hkx⟩ := List.mem_map.1 h
  have hany : (kept.any fun k => key k == key x) = true :=
    List.any_eq_true.2 ⟨k, hk, by simpa using hkx⟩
  rw [keepFirst, if_pos hany]

theorem keepFirst_of_notMem {kept : List α} {x : α} (h : key x ∉ kept.map key) :
    keepFirst key kept x = kept ++ [x] := by
  have hany : ¬(kept.any fun k => key k == key x) = true := by
    intro hany
    obtain ⟨k, hk, hkx⟩ := List.any_eq_true.1 hany
    exact h (List.mem_map.2 ⟨k, hk, by simpa using hkx⟩)
  rw [keepFirst, if_neg hany]

theorem find?_keepFirst (kept : List α) (x : α) (n : κ) :
    (keepFirst key kept x).find? (fun y => key y == n) =
      (kept.find? fun y => key y == n).or (if key x == n then some x else none) := by
  by_cases h : key x ∈ kept.map key
  · rw [keepFirst_of_mem h]
    by_cases hn : key x = n
    · obtain ⟨k, hk, hkx⟩ := List.mem_map.1 h
      have hsome : (kept.find? fun y => key y == n).isSome :=
        List.find?_isSome.2 ⟨k, hk, beq_iff_eq.2 (hkx.trans hn)⟩
      rw [Option.or_of_isSome hsome]
    · rw [if_neg (by simpa using hn), Option.or_none]
  · rw [keepFirst_of_notMem h, List.find?_append]
    congr 1
    cases hn : key x == n <;> simp [hn]

/-- **At a key there is what was kept, or else the first that came.** -/
theorem find?_firsts (kept l : List α) (n : κ) :
    (firsts key kept l).find? (fun y => key y == n) =
      (kept.find? fun y => key y == n).or (l.find? fun y => key y == n) := by
  induction l generalizing kept with
  | nil => rw [firsts_nil, List.find?_nil, Option.or_none]
  | cons x l ih =>
      rw [firsts_cons, ih, find?_keepFirst, Option.or_assoc, List.find?_cons]
      cases key x == n <;> rfl

omit [LawfulBEq κ] in
theorem mem_firsts_of_mem {kept : List α} {x : α} (l : List α) (h : x ∈ kept) :
    x ∈ firsts key kept l := by
  induction l generalizing kept with
  | nil => exact h
  | cons y l ih =>
      refine ih ?_
      rw [keepFirst]
      split
      · exact h
      · exact List.mem_append_left _ h

omit [LawfulBEq κ] in
/-- What is there was there before, or has just come. -/
theorem mem_or_eq_of_mem_keepFirst {kept : List α} {x y : α} (h : y ∈ keepFirst key kept x) :
    y ∈ kept ∨ y = x := by
  rw [keepFirst] at h
  split at h
  · exact Or.inl h
  · rcases List.mem_append.1 h with h | h
    · exact Or.inl h
    · exact Or.inr (List.mem_singleton.1 h)

/-- The keys are those that were there and those that came. -/
theorem mem_map_firsts_iff {kept l : List α} {n : κ} :
    n ∈ (firsts key kept l).map key ↔ n ∈ kept.map key ∨ n ∈ l.map key := by
  have hfind : ∀ m : List α, n ∈ m.map key ↔ (m.find? fun y => key y == n).isSome := by
    intro m
    rw [List.find?_isSome, List.mem_map]
    exact exists_congr fun y => and_congr_right fun _ => beq_iff_eq.symm
  rw [hfind, hfind, hfind, find?_firsts, Option.isSome_or, Bool.or_eq_true]

theorem mem_map_keepFirst_iff {kept : List α} {x : α} {n : κ} :
    n ∈ (keepFirst key kept x).map key ↔ n ∈ kept.map key ∨ n = key x := by
  show n ∈ (firsts key kept [x]).map key ↔ _
  rw [mem_map_firsts_iff, List.map_singleton, List.mem_singleton]

/-- No key is there twice. -/
theorem nodup_keepFirst {kept : List α} (h : (kept.map key).Nodup) (x : α) :
    ((keepFirst key kept x).map key).Nodup := by
  by_cases hx : key x ∈ kept.map key
  · rwa [keepFirst_of_mem hx]
  · rw [keepFirst_of_notMem hx, List.map_append, List.nodup_append]
    refine ⟨h, by simp, fun a ha b hb hab => hx ?_⟩
    rw [List.map_cons, List.map_nil, List.mem_singleton] at hb
    rwa [← hb, ← hab]

theorem nodup_firsts {kept : List α} (h : (kept.map key).Nodup) (l : List α) :
    ((firsts key kept l).map key).Nodup := by
  induction l generalizing kept with
  | nil => exact h
  | cons x l ih => exact ih (nodup_keepFirst h x)

omit [BEq κ] [LawfulBEq κ] in
/-- Among things with different keys, names differ if equal names have equal keys. -/
theorem nodup_map_iff_of_nodup {ν : Type} {name : α → ν} {l : List α} (h : (l.map key).Nodup) :
    (l.map name).Nodup ↔ ∀ x ∈ l, ∀ y ∈ l, name x = name y → key x = key y := by
  rw [List.nodup_map_iff_inj_on h.of_map]
  constructor
  · intro hname x hx y hy hxy
    rw [hname x hx y hy hxy]
  · intro hname x hx y hy hxy
    exact List.inj_on_of_nodup_map h hx hy (hname x hx y hy hxy)

/-- In a list without repeated keys everything is found at its key. -/
theorem find?_of_nodup {l : List α} (h : (l.map key).Nodup) {x : α} (hx : x ∈ l) :
    (l.find? fun y => key y == key x) = some x := by
  induction l with
  | nil => exact absurd hx (List.not_mem_nil)
  | cons y l ih =>
      rw [List.map_cons, List.nodup_cons] at h
      rcases List.mem_cons.1 hx with rfl | hx
      · rw [List.find?_cons_of_pos (by simp)]
      · have hne : key y ≠ key x := fun he => h.1 (he ▸ List.mem_map_of_mem hx)
        rw [List.find?_cons_of_neg (by simpa using hne), ih h.2 hx]

/-- What is there was kept, or came first with a key that was not there. -/
theorem mem_firsts_iff {kept l : List α} (h : (kept.map key).Nodup) {x : α} :
    x ∈ firsts key kept l ↔
      x ∈ kept ∨ key x ∉ kept.map key ∧ (l.find? fun y => key y == key x) = some x := by
  have hmem : ∀ {m : List α} {y : α}, (m.find? fun z => key z == key x) = some y → y ∈ m :=
    List.mem_of_find?_eq_some
  have hnone : key x ∉ kept.map key ↔ (kept.find? fun y => key y == key x) = none := by
    rw [List.find?_eq_none, List.mem_map, not_exists]
    exact forall_congr' fun y => by simp
  constructor
  · intro hx
    have hfind := find?_of_nodup (nodup_firsts h l) hx
    rw [find?_firsts, Option.or_eq_some_iff] at hfind
    rcases hfind with hk | ⟨hk, hl⟩
    · exact Or.inl (hmem hk)
    · exact Or.inr ⟨hnone.2 hk, hl⟩
  · rintro (hx | ⟨hk, hl⟩)
    · exact mem_firsts_of_mem l hx
    · refine hmem ?_
      rw [find?_firsts, hnone.1 hk, Option.none_or, hl]

/-- A run over keys that are all there changes nothing. -/
theorem firsts_eq_self {kept l : List α} (h : ∀ x ∈ l, key x ∈ kept.map key) :
    firsts key kept l = kept := by
  induction l with
  | nil => rfl
  | cons x l ih =>
      rw [firsts_cons, keepFirst_of_mem (h x List.mem_cons_self)]
      exact ih fun y hy => h y (List.mem_cons_of_mem _ hy)

/-- A run over new keys, none of them twice, puts all of them at the end. -/
theorem firsts_eq_append {kept l : List α} (h : ((kept ++ l).map key).Nodup) :
    firsts key kept l = kept ++ l := by
  induction l generalizing kept with
  | nil => rw [firsts_nil, List.append_nil]
  | cons x l ih =>
      have hx : key x ∉ kept.map key := by
        rw [List.map_append, List.map_cons, List.nodup_append] at h
        exact fun hk => h.2.2 _ hk _ List.mem_cons_self rfl
      rw [firsts_cons, keepFirst_of_notMem hx, ih (by simpa using h), List.append_assoc,
        List.singleton_append]

/-- A run over what another run has kept is one run over both. -/
theorem firsts_firsts (kept l m : List α) :
    firsts key kept (firsts key l m) = firsts key (firsts key kept l) m := by
  induction m generalizing l with
  | nil => rfl
  | cons x m ih =>
      rw [firsts_cons, firsts_cons, ih]
      congr 1
      by_cases h : key x ∈ l.map key
      · -- what is there already is there in the longer run too
        have h' : key x ∈ (firsts key kept l).map key := mem_map_firsts_iff.2 (Or.inr h)
        rw [keepFirst_of_mem h, keepFirst_of_mem h']
      · rw [keepFirst_of_notMem h, firsts, List.foldl_append]
        rfl

/-- Of new things without repeated keys, a run puts those at the end whose key was not
there. -/
theorem firsts_eq_append_filter {kept l : List α} (h : (l.map key).Nodup) :
    firsts key kept l = kept ++ l.filter fun x => key x ∉ kept.map key := by
  induction l generalizing kept with
  | nil => rw [firsts_nil, List.filter_nil, List.append_nil]
  | cons x l ih =>
      rw [List.map_cons, List.nodup_cons] at h
      rw [firsts_cons, ih h.2]
      by_cases hx : key x ∈ kept.map key
      · rw [keepFirst_of_mem hx, List.filter_cons_of_neg (by simpa using hx)]
      · rw [keepFirst_of_notMem hx, List.filter_cons_of_pos (by simpa using hx),
          List.append_assoc, List.singleton_append]
        refine congrArg (fun rest => kept ++ x :: rest) (List.filter_congr fun y hy => ?_)
        have hne : key y ≠ key x := fun he => h.1 (he ▸ List.mem_map_of_mem hy)
        simp [hne]

variable (key) in
/-- The things of a list whose key has not come before, in order. -/
def firstOfEach : List α → List α
  | [] => []
  | x :: l => x :: (firstOfEach l).filter fun y => !(key y == key x)

/-- A run puts the first of each key at the end, less those whose key was there. -/
theorem firsts_eq_append_firstOfEach (kept l : List α) :
    firsts key kept l = kept ++ (firstOfEach key l).filter fun x => key x ∉ kept.map key := by
  induction l generalizing kept with
  | nil => rw [firsts_nil, firstOfEach, List.filter_nil, List.append_nil]
  | cons x l ih =>
      rw [firsts_cons, ih, firstOfEach]
      by_cases hx : key x ∈ kept.map key
      · rw [keepFirst_of_mem hx, List.filter_cons_of_neg (by simpa using hx), List.filter_filter]
        refine congrArg (kept ++ ·) (List.filter_congr fun y _ => ?_)
        by_cases hy : key y = key x
        · simp [hy, hx]
        · simp [hy]
      · rw [keepFirst_of_notMem hx, List.filter_cons_of_pos (by simpa using hx),
          List.filter_filter, List.append_assoc, List.singleton_append]
        refine congrArg (fun rest => kept ++ x :: rest) (List.filter_congr fun y _ => ?_)
        rw [Bool.eq_iff_iff]
        simp only [List.map_append, List.map_cons, List.map_nil, List.mem_append,
          List.mem_singleton, not_or, decide_eq_true_eq, Bool.and_eq_true, Bool.not_eq_true',
          beq_eq_false_iff_ne, ne_eq]

/-- **A run from nothing keeps the first of each key.** -/
theorem firsts_nil_eq_firstOfEach (l : List α) : firsts key [] l = firstOfEach key l := by
  rw [firsts_eq_append_firstOfEach, List.nil_append]
  exact List.filter_eq_self.2 fun _ _ => by simp

/-- What is kept has the keys of all. -/
theorem mem_map_firstOfEach_iff {l : List α} {n : κ} :
    n ∈ (firstOfEach key l).map key ↔ n ∈ l.map key := by
  rw [← firsts_nil_eq_firstOfEach, mem_map_firsts_iff, List.map_nil,
    or_iff_right List.not_mem_nil]

omit [LawfulBEq κ] in
theorem mem_of_mem_firstOfEach {l : List α} {x : α} (h : x ∈ firstOfEach key l) : x ∈ l := by
  induction l with
  | nil => exact h
  | cons y l ih =>
      rcases List.mem_cons.1 h with rfl | h
      · exact List.mem_cons_self
      · exact List.mem_cons_of_mem _ (ih (List.mem_of_mem_filter h))

omit [LawfulBEq κ] in
/-- Things that are made from others are kept as the others are. -/
theorem firstOfEach_map {β : Type} (make : β → α) (l : List β) :
    firstOfEach key (l.map make) = (firstOfEach (fun x => key (make x)) l).map make := by
  induction l with
  | nil => rfl
  | cons x l ih =>
      rw [List.map_cons, firstOfEach, firstOfEach, ih, List.filter_map, List.map_cons]
      rfl

/-- What follows is run over what has been kept of what is in front. -/
theorem firstOfEach_append (l m : List α) :
    firstOfEach key (l ++ m) = firsts key (firstOfEach key l) m := by
  rw [← firsts_nil_eq_firstOfEach, ← firsts_nil_eq_firstOfEach, firsts, firsts, firsts,
    List.foldl_append]

end FirstOfEach

/-! ## The library's own steps -/

theorem Contribution.pushNew_eq : Contribution.pushNew = keepFirst fun name : String => name := by
  funext names name
  by_cases h : name ∈ names
  · rw [keepFirst_of_mem (by simpa using h), Contribution.pushNew, if_pos h]
  · rw [keepFirst_of_notMem (by simpa using h), Contribution.pushNew, if_neg h]

theorem Contribution.foldl_pushNew (known names : List String) :
    names.foldl Contribution.pushNew known = firsts (fun name : String => name) known names := by
  rw [Contribution.pushNew_eq, firsts]

theorem LayoutState.pushNamed_eq : LayoutState.pushNamed = keepFirst Binding.rawName := rfl

theorem Layout.firstOfEachName_eq (layouts : List LayoutData) :
    Layout.firstOfEachName layouts = firsts LayoutData.layout [] layouts := rfl

theorem Selection.select_eq : Selection.select = keepFirst LayoutData.layout := rfl

end ResourceStubs
