/-! Checks: steps of a computation that go on or end it with a fault. A computation that consists of
checks and bindings succeeds exactly when each of its steps does. -/

namespace WordAsm

variable {ε α β : Type}

/-- Goes on only if the condition holds. -/
def require (condition : Bool) (fault : ε) : Except ε Unit :=
  if condition then .ok () else .error fault

/-- Goes on only if no fault was found. -/
def forbid : Option ε → Except ε Unit
  | some fault => .error fault
  | none => .ok ()

@[simp]
theorem require_eq_ok_iff {condition : Bool} {fault : ε} {u : Unit} :
    require condition fault = .ok u ↔ condition = true := by
  cases condition
  · exact ⟨nofun, nofun⟩
  · exact ⟨fun _ => rfl, fun _ => rfl⟩

@[simp]
theorem forbid_eq_ok_iff {found : Option ε} {u : Unit} :
    forbid found = .ok u ↔ found = none := by
  cases found
  · exact ⟨fun _ => rfl, fun _ => rfl⟩
  · exact ⟨nofun, nofun⟩

theorem bind_eq_ok_iff {step : Except ε α} {next : α → Except ε β} {b : β} :
    step >>= next = .ok b ↔ ∃ a, step = .ok a ∧ next a = .ok b := by
  cases step with
  | error e => exact ⟨nofun, nofun⟩
  | ok a => exact ⟨fun h => ⟨a, rfl, h⟩, fun ⟨_, h, hn⟩ => Except.ok.inj h ▸ hn⟩

/-- What every step of a loop keeps holds at its end. -/
theorem foldlM_invariant (f : β → α → Except ε β) (P : β → Prop)
    (hstep : ∀ b a b', P b → f b a = .ok b' → P b') (xs : List α) (b b' : β) (hb : P b)
    (h : xs.foldlM f b = .ok b') : P b' := by
  induction xs generalizing b with
  | nil => exact Except.ok.inj h ▸ hb
  | cons x xs ih =>
    rw [List.foldlM_cons] at h
    obtain ⟨c, hc, h⟩ := bind_eq_ok_iff.mp h
    exact ih c (hstep b x c hb hc) h

end WordAsm
