import WordAsm.Check
import WordAsm.Format.Reader

/-! Formats that were read are well formed: a run of constant bits ends before it is too long, and a
slot has the width and the class that were asked for. -/

namespace WordAsm

open WordAsm.Text

namespace Format

theorem slotWidth?_bounds (digits : List Char) (width : Nat) (h : slotWidth? digits = some width) :
    1 ≤ width ∧ width ≤ 64 := by
  unfold slotWidth? at h
  split at h
  · split at h
    · rename_i hbounds
      exact Option.some.inj h ▸ hbounds
    · cases h
  · cases h

/-- A slot has the width asked for, and is typed only by one of the three classes. -/
theorem slotOf?_wellFormed (type : List Piece) (width : Nat) (part : Part)
    (hwidth : 1 ≤ width ∧ width ≤ 64) (h : slotOf? type width = some part) :
    part.WellFormed := by
  have hcases : part = .typed .register width ∨ part = .typed .condition width ∨
      part = .typed .special width ∨ part = .immediate width ∨ part = .extra width := by
    grind [slotOf?]
  rcases hcases with rfl | rfl | rfl | rfl | rfl
  all_goals exact ⟨hwidth.1, hwidth.2, by grind, by grind⟩

theorem readSlot_wellFormed (body : List UInt8) (part : Part) (h : readSlot body = .ok part) :
    part.WellFormed := by
  unfold readSlot at h
  dsimp only at h
  split at h
  · cases h
  · split at h
    · cases h
    · rename_i width hwidth
      split at h
      · rename_i slot hslot
        cases h
        exact slotOf?_wellFormed _ width part (slotWidth?_bounds _ width hwidth) hslot
      · cases h

/-- A run under way is a constant part that could end here. -/
def Pending.WellFormed : Pending → Prop
  | run width bits => (Part.constant width bits).WellFormed
  | nothing | slot .. => True

theorem Pending.flush_wellFormed (pending : Pending) (h : pending.WellFormed) :
    Format.WellFormed pending.flush := by
  cases pending with
  | nothing => exact nofun
  | slot start body => exact nofun
  | run width bits =>
    intro part hpart
    rw [List.mem_singleton.mp hpart]
    exact h

/-- The bit that the character of a digit stands for. -/
theorem toNat_bit_lt (byte : UInt8) (h : byte = 0x30 ∨ byte = 0x31) :
    (byte - 0x30).toUInt64.toNat < 2 := by
  rcases h with rfl | rfl
  · decide
  · decide

theorem Pending.run_wellFormed (bit : UInt64) (hbit : bit.toNat < 2) :
    (Pending.run 1 bit).WellFormed :=
  ⟨Nat.le_refl 1, Nat.le_add_left 1 63, by rintro width bits ⟨⟩; exact hbit, nofun⟩

/-- One more bit makes a longer run. -/
theorem Pending.run_succ_wellFormed (width : Nat) (bits bit : UInt64) (hwidth : width ≠ 64)
    (hbit : bit.toNat < 2) (h : (Pending.run width bits).WellFormed) :
    (Pending.run (width + 1) (bits <<< 1 ||| bit)).WellFormed := by
  have hle : width ≤ 64 := h.width_le
  have hbits : bits.toNat < 2 ^ width := h.constant_fits width bits rfl
  have hshift : (bits <<< 1).toNat < 2 ^ (width + 1) := by
    have hcut : (bits <<< 1).toNat ≤ bits.toNat * 2 := by
      rw [UInt64.toNat_shiftLeft, Nat.shiftLeft_eq]
      exact Nat.mod_le _ _
    rw [Nat.pow_succ]
    omega
  have hpow : 2 ^ 1 ≤ 2 ^ (width + 1) := Nat.pow_le_pow_right (by omega) (by omega)
  refine ⟨Nat.le_add_left 1 width, Nat.lt_of_le_of_ne hle hwidth, ?_, nofun⟩
  rintro w b ⟨⟩
  rw [UInt64.toNat_or]
  exact Nat.or_lt_two_pow hshift (Nat.lt_of_lt_of_le hbit hpow)

theorem append_wellFormed (front rest : Format) (hfront : front.WellFormed)
    (hrest : rest.WellFormed) : Format.WellFormed (front ++ rest) := by
  intro part hpart
  rcases List.mem_append.mp hpart with hpart | hpart
  · exact hfront part hpart
  · exact hrest part hpart

/-- Reading keeps the run under way a constant part that could end, whatever comes next. -/
theorem readFrom_wellFormed (offset : Nat) (pending : Pending) (text : List UInt8)
    (format : Format) (hpending : pending.WellFormed)
    (h : readFrom offset pending text = .ok format) : format.WellFormed := by
  -- the invariant is on what is pending; a part is complete once it is flushed
  fun_induction readFrom offset pending text generalizing format with
  | case1 => cases h
  | case2 offset pending hslot =>
    cases h
    exact pending.flush_wellFormed hpending
  | case3 offset start body rest ih =>
    obtain ⟨part, hpart, h⟩ := bind_eq_ok_iff.mp h
    obtain ⟨parts, hparts, h⟩ := bind_eq_ok_iff.mp h
    cases h
    exact List.forall_mem_cons.mpr ⟨readSlot_wellFormed body part hpart, ih parts trivial hparts⟩
  | case4 offset start body byte rest hclose ih => exact ih format trivial h
  | case5 => cases h
  | case6 offset byte rest hbyte bit width bits hwidth hslot ih =>
    exact ih format (Pending.run_succ_wellFormed width bits bit hwidth (toNat_bit_lt byte hbyte)
      hpending) h
  | case7 offset pending byte rest hslot hbyte bit hrun ih =>
    exact ih format (Pending.run_wellFormed bit (toNat_bit_lt byte hbyte)) h
  | case8 offset pending byte rest hslot hbyte hblank ih =>
    obtain ⟨parts, hparts, h⟩ := bind_eq_ok_iff.mp h
    cases h
    exact append_wellFormed _ _ (pending.flush_wellFormed hpending) (ih parts trivial hparts)
  | case9 offset pending rest hslot hbyte hblank ih =>
    obtain ⟨parts, hparts, h⟩ := bind_eq_ok_iff.mp h
    cases h
    exact append_wellFormed _ _ (pending.flush_wellFormed hpending) (ih parts trivial hparts)
  | case10 => cases h

theorem read_wellFormed (text : List UInt8) (format : Format) (h : read text = .ok format) :
    format.WellFormed := by
  obtain ⟨parts, hparts, h⟩ := bind_eq_ok_iff.mp h
  have hformat : format = parts := by
    cases parts with
    | nil => cases h
    | cons part rest => exact (Except.ok.inj h).symm
  rw [hformat]
  exact readFrom_wellFormed 0 .nothing text parts trivial hparts

end Format

end WordAsm
