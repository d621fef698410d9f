import Mathlib.Data.List.Forall2
import WordAsm.Check

/-! Checks over lists. A computation on every element succeeds exactly when it does on each of them,
what every step of a loop keeps holds at its end, and a loop of independent steps succeeds exactly
when each step does. -/

namespace WordAsm

variable {ε α β : Type}

/-- Results of a list are the results of its elements, in order. -/
theorem mapM_eq_ok_iff (f : α → Except ε β) (xs : List α) (ys : List β) :
    xs.mapM f = .ok ys ↔ List.Forall₂ (fun x y => f x = .ok y) xs ys := by
  induction xs generalizing ys with
  | nil =>
    rw [List.mapM_nil, List.forall₂_nil_left_iff]
    exact ⟨fun h => (Except.ok.inj h).symm, fun h => h ▸ rfl⟩
  | cons x xs ih =>
    rw [List.mapM_cons, bind_eq_ok_iff]
    constructor
    · rintro ⟨y, hy, h⟩
      obtain ⟨rest, hrest, h⟩ := bind_eq_ok_iff.mp h
      cases h
      exact .cons hy ((ih rest).mp hrest)
    · intro h
      cases h with
      | cons hy hrest => exact ⟨_, hy, bind_eq_ok_iff.mpr ⟨_, (ih _).mpr hrest, rfl⟩⟩

/-- Computations that lead related elements to related results do so for lists of them. -/
theorem mapM_related {α' β' : Type} {R : α → α' → Prop} {S : β → β' → Prop} (f : α → Except ε β)
    (g : α' → Except ε β')
    (hstep : ∀ x x' y, R x x' → f x = .ok y → ∃ y', g x' = .ok y' ∧ S y y')
    {xs : List α} {xs' : List α'} (hxs : List.Forall₂ R xs xs') (ys : List β)
    (h : xs.mapM f = .ok ys) : ∃ ys', xs'.mapM g = .ok ys' ∧ List.Forall₂ S ys ys' := by
  simp only [mapM_eq_ok_iff] at h ⊢
  induction hxs generalizing ys with
  | nil =>
    cases h
    exact ⟨[], .nil, .nil⟩
  | cons hx _ ih =>
    cases h with
    | cons hy hrest =>
      obtain ⟨y', hy', hrelated⟩ := hstep _ _ _ hx hy
      obtain ⟨ys', hys', hall⟩ := ih _ hrest
      exact ⟨y' :: ys', .cons hy' hys', .cons hrelated hall⟩

theorem mapM_eq_of_related {α' : Type} {R : α → α' → Prop} (f : α → Except ε β)
    (g : α' → Except ε β) (hstep : ∀ x x' y, R x x' → f x = .ok y → g x' = .ok y)
    {xs : List α} {xs' : List α'} (hxs : List.Forall₂ R xs xs') (ys : List β)
    (h : xs.mapM f = .ok ys) : xs'.mapM g = .ok ys := by
  obtain ⟨ys', hys', heq⟩ := mapM_related (S := Eq) f g
    (fun x x' y hx hy => ⟨y, hstep x x' y hx hy, rfl⟩) hxs ys h
  rw [List.forall₂_eq_eq_eq] at heq
  rw [hys', heq]

theorem exists_forall₂_iff {R : α → β → Prop} (xs : List α) :
    (∃ ys, List.Forall₂ R xs ys) ↔ ∀ x ∈ xs, ∃ y, R x y := by
  induction xs with
  | nil => simp
  | cons x xs ih =>
    rw [List.forall_mem_cons, ← ih]
    constructor
    · rintro ⟨_, hall⟩
      cases hall with
      | cons hfirst hrest => exact ⟨⟨_, hfirst⟩, _, hrest⟩
    · rintro ⟨⟨y, hfirst⟩, ys, hrest⟩
      exact ⟨y :: ys, .cons hfirst hrest⟩

/-- Related lists have related elements at every index. -/
theorem forall₂_getElem? {R : α → β → Prop} {xs : List α} {ys : List β} (h : List.Forall₂ R xs ys)
    (index : Nat) (x : α) (hx : xs[index]? = some x) : ∃ y, ys[index]? = some y ∧ R x y := by
  induction h generalizing index with
  | nil => cases hx
  | cons hfirst _ ih =>
    cases index with
    | zero =>
      cases hx
      exact ⟨_, rfl, hfirst⟩
    | succ index => exact ih index hx

/-- A loop whose steps do not mind what was done before them succeeds if every step does. -/
theorem exists_foldlM_iff (f : β → α → Except ε β) (P : α → Prop)
    (hstep : ∀ b a, (∃ b', f b a = .ok b') ↔ P a) (xs : List α) (b : β) :
    (∃ b', xs.foldlM f b = .ok b') ↔ ∀ a ∈ xs, P a := by
  induction xs generalizing b with
  | nil => simp [pure, Except.pure]
  | cons a xs ih =>
    rw [List.forall_mem_cons, ← hstep b a]
    simp only [List.foldlM_cons, bind_eq_ok_iff]
    constructor
    · rintro ⟨b', c, hc, hrest⟩
      exact ⟨⟨c, hc⟩, (ih c).mp ⟨b', hrest⟩⟩
    · rintro ⟨⟨c, hc⟩, hrest⟩
      obtain ⟨b', hb'⟩ := (ih c).mpr hrest
      exact ⟨b', c, hc, hb'⟩

end WordAsm
