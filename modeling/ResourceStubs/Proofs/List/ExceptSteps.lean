import Mathlib.Data.List.Forall2

/-!
# Steps that may fail

A run over a list that stops at the first failure succeeds exactly when every single
step does.  `mapM_eq_ok_iff` and `mem_of_mapM_eq_ok` say so of steps that do not depend
on each other, and `foldlM_induction` carries an invariant through steps that do.  In
between stand runs whose steps succeed or fail by themselves, whatever has been made so
far (`foldlM_eq_ok_iff`).  A run that goes on with steps that change nothing comes to what
it had come to (`foldlM_append_eq_left`).

The step that fails is told by its place, which is a list in front of it and a list behind it.
`concat_eq_append_cons_iff` is what an induction from the end needs to know of places, and
`exists_place_cons_iff` what one from the front does.

Where only the sort of a failure matters, `FailsOnly` says it of a step, and a run is put together
from such steps.
-/

namespace ResourceStubs

/-- **A place in a longer list** is the last place, or a place in the list before. -/
theorem concat_eq_append_cons_iff {α : Type} {l before after : List α} {a x : α} :
    l ++ [a] = before ++ x :: after ↔
      (after = [] ∧ before = l ∧ x = a) ∨ ∃ rest, after = rest ++ [a] ∧ l = before ++ x :: rest := by
  rcases List.eq_nil_or_concat after with rfl | ⟨rest, last, rfl⟩
  · constructor
    · intro h
      obtain ⟨rfl, hlast⟩ := List.append_inj' h rfl
      exact Or.inl ⟨rfl, rfl, (List.singleton_inj.1 hlast).symm⟩
    · rintro (⟨-, rfl, rfl⟩ | ⟨rest, h, -⟩)
      · rfl
      · exact absurd h (by simp)
  · rw [List.concat_eq_append, ← List.cons_append, ← List.append_assoc]
    constructor
    · intro h
      obtain ⟨hl, hlast⟩ := List.append_inj' h rfl
      exact Or.inr ⟨rest, by rw [List.singleton_inj.1 hlast], hl⟩
    · rintro (⟨h, -⟩ | ⟨rest', h, rfl⟩)
      · exact absurd h (by simp)
      · obtain ⟨rfl, hlast⟩ := List.append_inj' h rfl
        rw [List.singleton_inj.1 hlast]

/-- The first bad place of a list is its first element, or a place in the rest. -/
theorem exists_place_cons_iff {α : Type} {good bad : α → Prop} {a : α} {l : List α} :
    (∃ before x after, a :: l = before ++ x :: after ∧ (∀ y ∈ before, good y) ∧ bad x) ↔
      bad a ∨ good a ∧
        ∃ before x after, l = before ++ x :: after ∧ (∀ y ∈ before, good y) ∧ bad x := by
  constructor
  · rintro ⟨_ | ⟨y, before⟩, x, after, h, hgood, hx⟩
    · obtain ⟨rfl, rfl⟩ := List.cons.inj h
      exact Or.inl hx
    · obtain ⟨rfl, rfl⟩ := List.cons.inj h
      rw [List.forall_mem_cons] at hgood
      exact Or.inr ⟨hgood.1, before, x, after, rfl, hgood.2, hx⟩
  · rintro (hx | ⟨ha, before, x, after, rfl, hgood, hx⟩)
    · exact ⟨[], a, l, rfl, by simp, hx⟩
    · exact ⟨a :: before, x, after, rfl, List.forall_mem_cons.2 ⟨ha, hgood⟩, hx⟩

section Except

variable {ε α β γ : Type}

theorem bind_eq_ok_iff {x : Except ε α} {f : α → Except ε β} {b : β} :
    x >>= f = .ok b ↔ ∃ a, x = .ok a ∧ f a = .ok b := by
  cases x with
  | error e => exact ⟨fun h => absurd h (by simp [bind, Except.bind]), fun ⟨_, h, _⟩ => by cases h⟩
  | ok a => exact ⟨fun h => ⟨a, rfl, h⟩, fun ⟨_, h, hf⟩ => by cases h; exact hf⟩

theorem bind_eq_error_iff {x : Except ε α} {f : α → Except ε β} {e : ε} :
    x >>= f = .error e ↔ x = .error e ∨ ∃ a, x = .ok a ∧ f a = .error e := by
  cases x with
  | error d =>
      constructor
      · rintro ⟨⟩
        exact Or.inl rfl
      · rintro (⟨⟨⟩⟩ | ⟨a, ⟨⟩, -⟩)
        rfl
  | ok a =>
      constructor
      · exact fun h => Or.inr ⟨a, rfl, h⟩
      · rintro (⟨⟨⟩⟩ | ⟨_, ⟨⟩, hf⟩)
        exact hf

theorem throw_ne_ok {e : ε} {a : α} : (throw e : Except ε α) ≠ .ok a := by
  intro h
  exact absurd h (by simp [throw, throwThe, MonadExceptOf.throw])

/-- A failure is no success, whatever state the two leave behind. -/
theorem error_ne_ok {σ : Type} {e : ε} {a : α} {s t : σ} :
    ((.error e, s) : Except ε α × σ) ≠ (.ok a, t) := by
  intro h
  exact absurd (Prod.mk.inj h).1 (by simp)

theorem mapM_cons_eq_ok_iff {f : α → Except ε β} {a : α} {l : List α} {r : List β} :
    (a :: l).mapM f = .ok r ↔ ∃ b s, f a = .ok b ∧ l.mapM f = .ok s ∧ r = b :: s := by
  rw [List.mapM_cons, bind_eq_ok_iff]
  refine exists_congr fun b => ?_
  rw [bind_eq_ok_iff]
  constructor
  · rintro ⟨hb, s, hs, hr⟩
    exact ⟨s, hb, hs, (Except.ok.inj hr).symm⟩
  · rintro ⟨s, hb, hs, rfl⟩
    exact ⟨hb, s, hs, rfl⟩

/-- **Every single step succeeds, and the results stand in the order of the steps.** -/
theorem mapM_eq_ok_iff {f : α → Except ε β} {l : List α} {r : List β} :
    l.mapM f = .ok r ↔ List.Forall₂ (fun a b => f a = .ok b) l r := by
  induction l generalizing r with
  | nil =>
      rw [List.mapM_nil, List.forall₂_nil_left_iff]
      exact ⟨fun h => (Except.ok.inj h).symm, fun h => by rw [h]; rfl⟩
  | cons a l ih =>
      rw [mapM_cons_eq_ok_iff, List.forall₂_cons_left_iff]
      simp only [ih]

theorem exists_mapM_eq_ok {f : α → Except ε β} {l : List α} (h : ∀ a ∈ l, ∃ b, f a = .ok b) :
    ∃ r, l.mapM f = .ok r := by
  induction l with
  | nil => exact ⟨[], rfl⟩
  | cons a l ih =>
      obtain ⟨b, hb⟩ := h a List.mem_cons_self
      obtain ⟨s, hs⟩ := ih fun x hx => h x (List.mem_cons_of_mem _ hx)
      exact ⟨b :: s, mapM_cons_eq_ok_iff.2 ⟨b, s, hb, hs, rfl⟩⟩

theorem mem_of_mapM_eq_ok {f : α → Except ε β} {l : List α} {r : List β}
    (h : l.mapM f = .ok r) {b : β} : b ∈ r ↔ ∃ a ∈ l, f a = .ok b := by
  rw [mapM_eq_ok_iff] at h
  induction h with
  | nil => simp
  | @cons a b₀ l r hab _ ih =>
      rw [List.mem_cons, ih]
      constructor
      · rintro (rfl | ⟨x, hx, hxb⟩)
        · exact ⟨a, List.mem_cons_self, hab⟩
        · exact ⟨x, List.mem_cons_of_mem _ hx, hxb⟩
      · rintro ⟨x, hx, hxb⟩
        rcases List.mem_cons.1 hx with rfl | hx
        · exact Or.inl (Except.ok.inj (hxb.symm.trans hab))
        · exact Or.inr ⟨x, hx, hxb⟩

theorem exists_of_mapM_eq_ok {f : α → Except ε β} {l : List α} {r : List β}
    (h : l.mapM f = .ok r) {a : α} (ha : a ∈ l) : ∃ b ∈ r, f a = .ok b := by
  rw [mapM_eq_ok_iff] at h
  induction h with
  | nil => exact absurd ha List.not_mem_nil
  | @cons a₀ b₀ l r hab _ ih =>
      rcases List.mem_cons.1 ha with rfl | ha
      · exact ⟨b₀, List.mem_cons_self, hab⟩
      · obtain ⟨b, hb, hfb⟩ := ih ha
        exact ⟨b, List.mem_cons_of_mem _ hb, hfb⟩

/-- What every step of a run keeps, the run keeps. -/
theorem foldlM_induction {f : β → α → Except ε β} {P : β → Prop} {l : List α} {b c : β}
    (h : l.foldlM f b = .ok c) (hb : P b)
    (hstep : ∀ b, P b → ∀ a ∈ l, ∀ c, f b a = .ok c → P c) : P c := by
  induction l generalizing b with
  | nil =>
      have hbc : b = c := Except.ok.inj h
      rwa [← hbc]
  | cons a l ih =>
      rw [List.foldlM_cons, bind_eq_ok_iff] at h
      obtain ⟨d, hd, h⟩ := h
      exact ih h (hstep b hb a List.mem_cons_self d hd)
        fun b hb x hx => hstep b hb x (List.mem_cons_of_mem _ hx)

/-- What the step for one element brings about and no step undoes holds at the end. -/
theorem foldlM_of_mem {f : β → α → Except ε β} {P : β → Prop} {l : List α} {b c : β}
    (h : l.foldlM f b = .ok c) {a : α} (ha : a ∈ l) (hown : ∀ b c, f b a = .ok c → P c)
    (hkeep : ∀ b, P b → ∀ x ∈ l, ∀ c, f b x = .ok c → P c) : P c := by
  induction l generalizing b with
  | nil => exact absurd ha List.not_mem_nil
  | cons x l ih =>
      rw [List.foldlM_cons, bind_eq_ok_iff] at h
      obtain ⟨d, hd, h⟩ := h
      have hrest : ∀ b, P b → ∀ y ∈ l, ∀ c, f b y = .ok c → P c := fun b hb y hy =>
        hkeep b hb y (List.mem_cons_of_mem _ hy)
      rcases List.mem_cons.1 ha with rfl | ha
      · exact foldlM_induction h (hown b d hd) hrest
      · exact ih h ha hrest

/-- Where single steps succeed alike, so do runs. -/
theorem foldlM_ok_congr {f g : β → α → Except ε β} (hfg : ∀ b a c, f b a = .ok c → g b a = .ok c)
    {l : List α} {b c : β} (h : l.foldlM f b = .ok c) : l.foldlM g b = .ok c := by
  induction l generalizing b with
  | nil => exact h
  | cons a l ih =>
      rw [List.foldlM_cons, bind_eq_ok_iff] at h ⊢
      obtain ⟨d, hd, h⟩ := h
      exact ⟨d, hfg b a d hd, ih h⟩

/-- Steps that change nothing make a run that changes nothing. -/
theorem foldlM_eq_self {f : β → α → Except ε β} {l : List α} {b : β}
    (h : ∀ a ∈ l, f b a = .ok b) : l.foldlM f b = .ok b := by
  induction l with
  | nil => rfl
  | cons a l ih =>
      rw [List.foldlM_cons, h a List.mem_cons_self]
      exact ih fun x hx => h x (List.mem_cons_of_mem _ hx)

/-- **A run absorbs what changes nothing at its end**, and fails as it did without it. -/
theorem foldlM_append_eq_left {f : β → α → Except ε β} {l m : List α} {b : β}
    (h : ∀ c, l.foldlM f b = .ok c → ∀ a ∈ m, f c a = .ok c) :
    (l ++ m).foldlM f b = l.foldlM f b := by
  rw [List.foldlM_append]
  cases hl : l.foldlM f b with
  | error e => rfl
  | ok c => exact foldlM_eq_self (h c hl)

/-- **Whether a step succeeds may depend on its element only.**  Then a run succeeds when
all elements are good, and what it makes is made by the steps alone. -/
theorem foldlM_eq_ok_iff {f : β → α → Except ε β} {good : α → Prop} {step : β → α → β}
    (hf : ∀ b a c, f b a = .ok c ↔ good a ∧ c = step b a) {l : List α} {b c : β} :
    l.foldlM f b = .ok c ↔ (∀ a ∈ l, good a) ∧ c = l.foldl step b := by
  induction l generalizing b with
  | nil =>
      rw [List.foldlM_nil, List.foldl_nil]
      exact ⟨fun h => ⟨by simp, (Except.ok.inj h).symm⟩, fun h => by rw [h.2]; rfl⟩
  | cons a l ih =>
      rw [List.foldlM_cons, bind_eq_ok_iff, List.forall_mem_cons, List.foldl_cons]
      simp only [hf, ih]
      constructor
      · rintro ⟨_, ⟨ha, rfl⟩, hl, hc⟩
        exact ⟨⟨ha, hl⟩, hc⟩
      · rintro ⟨⟨ha, hl⟩, hc⟩
        exact ⟨_, ⟨ha, rfl⟩, hl, hc⟩

/-- **The first bad element is the one that is reported.** -/
theorem foldlM_eq_error_iff {f : β → α → Except ε β} {good : α → Prop} {step : β → α → β}
    {bad : α → ε → Prop} (hf : ∀ b a c, f b a = .ok c ↔ good a ∧ c = step b a)
    (hbad : ∀ b a e, f b a = .error e ↔ bad a e) {l : List α} {b : β} {e : ε} :
    l.foldlM f b = .error e ↔
      ∃ before a after, l = before ++ a :: after ∧ (∀ x ∈ before, good x) ∧ bad a e := by
  induction l generalizing b with
  | nil =>
      rw [List.foldlM_nil]
      constructor
      · intro h
        cases h
      · rintro ⟨before, a, after, h, -⟩
        exact absurd h (by simp)
  | cons a l ih =>
      rw [List.foldlM_cons, exists_place_cons_iff, bind_eq_error_iff, hbad]
      refine or_congr_right ⟨?_, ?_⟩
      · rintro ⟨c, hc, h⟩
        exact ⟨((hf b a c).1 hc).1, ih.1 h⟩
      · rintro ⟨ha, h⟩
        exact ⟨step b a, (hf b a _).2 ⟨ha, rfl⟩, ih.2 h⟩

/-! ## Sorts of failures -/

/-- If the step fails, then with a failure of this sort. -/
def FailsOnly (P : ε → Prop) (x : Except ε α) : Prop :=
  ∀ e, x = .error e → P e

variable {P : ε → Prop}

theorem failsOnly_ok (a : α) : FailsOnly P (.ok a : Except ε α) := fun _ h => by cases h

theorem failsOnly_error {e : ε} (h : P e) : FailsOnly P (.error e : Except ε α) := by
  intro d hd
  rwa [← Except.error.inj hd]

theorem FailsOnly.bind {x : Except ε α} {f : α → Except ε β} (hx : FailsOnly P x)
    (hf : ∀ a, x = .ok a → FailsOnly P (f a)) : FailsOnly P (x >>= f) := by
  intro e h
  rcases bind_eq_error_iff.1 h with h | ⟨a, ha, h⟩
  · exact hx e h
  · exact hf a ha e h

theorem failsOnly_mapM {f : α → Except ε β} {l : List α} (h : ∀ a ∈ l, FailsOnly P (f a)) :
    FailsOnly P (l.mapM f) := by
  induction l with
  | nil => exact failsOnly_ok []
  | cons a l ih =>
      rw [List.mapM_cons]
      exact (h a List.mem_cons_self).bind fun _ _ =>
        (ih fun x hx => h x (List.mem_cons_of_mem _ hx)).bind fun _ _ => failsOnly_ok _

theorem failsOnly_foldlM {f : β → α → Except ε β} {l : List α}
    (h : ∀ b, ∀ a ∈ l, FailsOnly P (f b a)) (b : β) : FailsOnly P (l.foldlM f b) := by
  induction l generalizing b with
  | nil => exact failsOnly_ok b
  | cons a l ih =>
      rw [List.foldlM_cons]
      exact (h b a List.mem_cons_self).bind fun c _ =>
        ih (fun b x hx => h b x (List.mem_cons_of_mem _ hx)) c

end Except

end ResourceStubs
