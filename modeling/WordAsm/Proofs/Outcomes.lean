import WordAsm.Proofs.Checks

/-! How computations end. What is known of the results of a computation and what is known of its
faults go through bindings and loops together, so each stage needs one statement for both. -/

namespace WordAsm

variable {ε α β : Type}

/-- A computation whose result passes a test has a result. -/
theorem exists_ok_of_any (run : Except ε α) (test : α → Bool)
    (h : run.toOption.any test = true) : ∃ a, run = .ok a ∧ test a = true := by
  cases run with
  | ok a => exact ⟨a, rfl, h⟩
  | error e => cases h

/-- The computation ends in a result that `P` holds of, or in a fault that `Q` holds of. -/
def Ends (P : α → Prop) (Q : ε → Prop) : Except ε α → Prop
  | .ok a => P a
  | .error e => Q e

namespace Ends

variable {P : α → Prop} {Q : ε → Prop} {run : Except ε α}

theorem of_ok (h : Ends P Q run) {a : α} (hrun : run = .ok a) : P a := by
  rw [hrun] at h
  exact h

theorem of_error (h : Ends P Q run) {e : ε} (hrun : run = .error e) : Q e := by
  rw [hrun] at h
  exact h

theorem imp {P' : α → Prop} {Q' : ε → Prop} (h : Ends P Q run)
    (hP : ∀ a, run = .ok a → P a → P' a) (hQ : ∀ e, run = .error e → Q e → Q' e) :
    Ends P' Q' run := by
  cases run with
  | ok a => exact hP a rfl h
  | error e => exact hQ e rfl h

/-- A step that fails ends the computation, and one that succeeds leaves its end to what follows. -/
theorem bind {P' : β → Prop} {next : α → Except ε β} (h : Ends P Q run)
    (hnext : ∀ a, run = .ok a → P a → Ends P' Q (next a)) : Ends P' Q (run >>= next) := by
  cases run with
  | ok a => exact hnext a rfl h
  | error e => exact h

/-- A loop ends as its passes do: in results of all of them, or in a fault of one. -/
theorem mapM (f : α → Except ε β) (xs : List α) {P : β → Prop} (h : ∀ x ∈ xs, Ends P Q (f x)) :
    Ends (fun ys => ∀ y ∈ ys, P y) Q (xs.mapM f) := by
  induction xs with
  | nil =>
    rw [List.mapM_nil]
    exact List.forall_mem_nil P
  | cons x xs ih =>
    rw [List.mapM_cons]
    apply (h x List.mem_cons_self).bind
    intro y _ hy
    apply (ih fun other hother => h other (List.mem_cons_of_mem x hother)).bind
    intro ys _ hys
    exact List.forall_mem_cons.mpr ⟨hy, hys⟩

end Ends

variable {α' β' : Type}

/-- Both computations end in results that `P` relates, or both in faults that `Q` relates. -/
def EndAlike (P : α → α' → Prop) (Q : ε → ε → Prop) : Except ε α → Except ε α' → Prop
  | .ok a, .ok a' => P a a'
  | .error e, .error e' => Q e e'
  | _, _ => False

namespace EndAlike

variable {P : α → α' → Prop} {Q : ε → ε → Prop} {run : Except ε α} {run' : Except ε α'}

theorem imp {P' : α → α' → Prop} {Q' : ε → ε → Prop} (h : EndAlike P Q run run')
    (hP : ∀ a a', P a a' → P' a a') (hQ : ∀ e e', Q e e' → Q' e e') :
    EndAlike P' Q' run run' := by
  cases run with
  | ok a =>
    cases run' with
    | ok a' => exact hP a a' h
    | error e' => exact h
  | error e =>
    cases run' with
    | ok a' => exact h
    | error e' => exact hQ e e' h

/-- One computation ends as itself. -/
theorem refl {P : α → α → Prop} (run : Except ε α) (hP : ∀ a, P a a) (hQ : ∀ e, Q e e) :
    EndAlike P Q run run := by
  cases run with
  | ok a => exact hP a
  | error e => exact hQ e

/-- Three computations that end alike one after the other. -/
theorem trans {γ : Type} {P' : α' → γ → Prop} {P'' : α → γ → Prop} {Q' Q'' : ε → ε → Prop}
    {run'' : Except ε γ} (h : EndAlike P Q run run') (h' : EndAlike P' Q' run' run'')
    (hP : ∀ a a' a'', P a a' → P' a' a'' → P'' a a'')
    (hQ : ∀ e e' e'', Q e e' → Q' e' e'' → Q'' e e'') : EndAlike P'' Q'' run run'' := by
  cases run with
  | ok a =>
    cases run' with
    | ok a' =>
      cases run'' with
      | ok a'' => exact hP a a' a'' h h'
      | error e'' => exact h'.elim
    | error e' => exact h.elim
  | error e =>
    cases run' with
    | ok a' => exact h.elim
    | error e' =>
      cases run'' with
      | ok a'' => exact h'.elim
      | error e'' => exact hQ e e' e'' h h'

/-- Computations that end alike and go on alike end alike. -/
theorem bind {P' : β → β' → Prop} {next : α → Except ε β} {next' : α' → Except ε β'}
    (h : EndAlike P Q run run') (hnext : ∀ a a', P a a' → EndAlike P' Q (next a) (next' a')) :
    EndAlike P' Q (run >>= next) (run' >>= next') := by
  cases run with
  | ok a =>
    cases run' with
    | ok a' => exact hnext a a' h
    | error e' => exact h.elim
  | error e =>
    cases run' with
    | ok a' => exact h.elim
    | error e' => exact h

/-- Loops over related lists end alike if their passes do: the first pass to fail is the same. -/
theorem mapM {R : α → α' → Prop} {S : β → β' → Prop} (f : α → Except ε β) (g : α' → Except ε β')
    (hstep : ∀ x x', R x x' → EndAlike S Q (f x) (g x')) {xs : List α} {xs' : List α'}
    (h : List.Forall₂ R xs xs') : EndAlike (List.Forall₂ S) Q (xs.mapM f) (xs'.mapM g) := by
  induction h with
  | nil =>
    rw [List.mapM_nil, List.mapM_nil]
    exact .nil
  | cons hfirst _ ih =>
    rw [List.mapM_cons, List.mapM_cons]
    apply (hstep _ _ hfirst).bind
    intro y y' hy
    apply ih.bind
    intro ys ys' hys
    exact .cons hy hys

end EndAlike

end WordAsm
