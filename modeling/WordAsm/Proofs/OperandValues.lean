import WordAsm.Proofs.FormatWords
import WordAsm.Proofs.SetNames

/-! Operands of instructions. The arguments of an instruction, in order, give each slot of its
format a value that it holds; the parts of a format get values exactly when they do. -/

namespace WordAsm

namespace Image

/-- The argument gives the slot a value that it holds. -/
def Takes (set : InstructionSet) : Part → Token → UInt64 → Prop
  | .typed cls width, arg, value =>
    arg.kind = .ofClass cls ∧ set.value? cls arg.text = some value ∧ value.toNat < 2 ^ width
  | .immediate width, arg, value | .extra width, arg, value =>
    arg.value = .ok value ∧ value.toNat < 2 ^ width
  | .constant .., _, _ => False

/-- The arguments give the slots their values in order: each slot takes an argument, extras are
zero when none is left, and arguments left over are ignored. -/
inductive Given (set : InstructionSet) : List Part → List Token → List UInt64 → Prop
  | done (args : List Token) : Given set [] args []
  | leftOut {width : Nat} {parts : List Part} {values : List UInt64}
      (hrest : Given set parts [] values) : Given set (.extra width :: parts) [] (0 :: values)
  | taken {part : Part} {parts : List Part} {arg : Token} {args : List Token} {value : UInt64}
      {values : List UInt64} (harg : Takes set part arg value)
      (hrest : Given set parts args values) :
      Given set (part :: parts) (arg :: args) (value :: values)

theorem checkFits_eq_ok_iff (arg : Token) (value : UInt64) (width : Nat) (result : UInt64) :
    checkFits arg value width = .ok result ↔ value = result ∧ result.toNat < 2 ^ width := by
  rw [checkFits]
  split
  · rename_i hfits
    rw [Word.fits_iff] at hfits
    constructor
    · intro h
      cases h
      exact ⟨rfl, hfits⟩
    · rintro ⟨rfl, _⟩
      rfl
  · rename_i hfits
    rw [Word.fits_iff] at hfits
    refine ⟨nofun, ?_⟩
    rintro ⟨rfl, h⟩
    exact absurd h hfits

theorem namedOperand_eq_ok_iff (set : InstructionSet) (mnemonic : String) (cls : Class)
    (width bit : Nat) (arg : Token) (value : UInt64) :
    namedOperand set mnemonic cls width bit arg = .ok value ↔
      Takes set (.typed cls width) arg value := by
  rw [namedOperand]
  split
  · rename_i hkind
    exact ⟨nofun, fun h => absurd h.1 hkind⟩
  · rename_i hkind
    cases hvalue : set.value? cls arg.text with
    | none =>
      refine ⟨nofun, ?_⟩
      rintro ⟨_, h, _⟩
      rw [hvalue] at h
      cases h
    | some known =>
      change checkFits arg known width = .ok value ↔ _
      rw [checkFits_eq_ok_iff]
      constructor
      · rintro ⟨rfl, hfits⟩
        exact ⟨not_not.mp hkind, hvalue, hfits⟩
      · rintro ⟨_, h, hfits⟩
        rw [hvalue] at h
        exact ⟨Option.some.inj h, hfits⟩

theorem numericOperand_eq_ok_iff (mnemonic : String) (width bit : Nat) (arg : Token)
    (value : UInt64) :
    numericOperand mnemonic width bit arg = .ok value ↔
      arg.value = .ok value ∧ value.toNat < 2 ^ width := by
  rw [numericOperand]
  split
  · cases hvalue : arg.value with
    | error fault => exact ⟨nofun, fun h => nomatch h.1⟩
    | ok known =>
      change checkFits arg known width = .ok value ↔ _
      rw [checkFits_eq_ok_iff]
      constructor
      · rintro ⟨rfl, hfits⟩
        exact ⟨rfl, hfits⟩
      · rintro ⟨h, hfits⟩
        exact ⟨Except.ok.inj h, hfits⟩
  · -- an argument that is no number has no value, whatever its text
    rename_i hkind
    refine ⟨nofun, fun h => ?_⟩
    rw [Token.value, if_neg (by rw [hkind]; decide)] at h
    cases h.1
  · rename_i hkind _
    refine ⟨nofun, fun h => ?_⟩
    rw [Token.value, if_neg hkind] at h
    cases h.1

/-- A slot that an argument is left for takes it, and the rest goes to the parts behind. -/
theorem take_eq_ok_iff (set : InstructionSet) (part : Part) (rest : Format) (arg : Token)
    (args : List Token) (operand : Except Error UInt64) (later : Except Error (List UInt64))
    (values : List UInt64) (hslot : part.isSlot = true)
    (hoperand : ∀ value, operand = .ok value ↔ Takes set part arg value)
    (hlater : ∀ values, later = .ok values ↔
      ∃ slots, Given set rest.slots args slots ∧ values = rest.fill slots) :
    (do let value ← operand; let values ← later; return value :: values) = .ok values ↔
      ∃ slots, Given set (Format.slots (part :: rest)) (arg :: args) slots ∧
        values = Format.fill (part :: rest) slots := by
  have hslots : Format.slots (part :: rest) = part :: rest.slots := List.filter_cons_of_pos hslot
  rw [hslots, bind_eq_ok_iff]
  constructor
  · rintro ⟨value, hvalue, h⟩
    obtain ⟨later', hlater', h⟩ := bind_eq_ok_iff.mp h
    cases h
    obtain ⟨slots, hgiven, rfl⟩ := (hlater _).mp hlater'
    exact ⟨value :: slots, .taken ((hoperand value).mp hvalue) hgiven,
      (Format.fill_of_slot part rest value slots hslot).symm⟩
  · rintro ⟨slots, hgiven, rfl⟩
    cases hgiven with
    | @taken _ _ _ _ value values harg hrest =>
      rw [Format.fill_of_slot part rest value values hslot]
      exact ⟨value, (hoperand value).mpr harg,
        bind_eq_ok_iff.mpr ⟨_, (hlater _).mpr ⟨values, hrest, rfl⟩, rfl⟩⟩

/-- A slot that has to take an argument gets no value when none is left. -/
theorem not_given_nil (set : InstructionSet) (part : Part) (parts : List Part)
    (slots : List UInt64) (h : ∀ width, part ≠ .extra width) :
    ¬ Given set (part :: parts) [] slots := by
  intro hgiven
  cases hgiven with
  | leftOut _ => exact h _ rfl

/-- The parts of a format get values exactly when the arguments give the slots theirs. -/
theorem partValues_eq_ok_iff (set : InstructionSet) (mnemonic : String) (pos : Position)
    (format : Format) (bit : Nat) (args : List Token) (values : List UInt64) :
    partValues set mnemonic pos bit format args = .ok values ↔
      ∃ slots, Given set format.slots args slots ∧ values = format.fill slots := by
  induction format generalizing bit args values with
  | nil =>
    rw [partValues]
    constructor
    · intro h
      cases h
      exact ⟨[], .done args, rfl⟩
    · rintro ⟨slots, _, rfl⟩
      rfl
  | cons part rest ih =>
    cases part with
    | constant width bits =>
      rw [partValues, bind_eq_ok_iff]
      constructor
      · rintro ⟨later, hlater, h⟩
        cases h
        obtain ⟨slots, hgiven, rfl⟩ := (ih _ _ _).mp hlater
        exact ⟨slots, hgiven, rfl⟩
      · rintro ⟨slots, hgiven, rfl⟩
        exact ⟨_, (ih _ _ _).mpr ⟨slots, hgiven, rfl⟩, rfl⟩
    | typed cls width =>
      cases args with
      | nil => exact ⟨nofun, fun ⟨_, h, _⟩ => absurd h (not_given_nil set _ _ _ nofun)⟩
      | cons arg args =>
        rw [partValues]
        exact take_eq_ok_iff set _ rest arg args _ _ values rfl
          (namedOperand_eq_ok_iff set mnemonic cls width bit arg) (ih _ _)
    | immediate width =>
      cases args with
      | nil => exact ⟨nofun, fun ⟨_, h, _⟩ => absurd h (not_given_nil set _ _ _ nofun)⟩
      | cons arg args =>
        rw [partValues]
        exact take_eq_ok_iff set _ rest arg args _ _ values rfl
          (numericOperand_eq_ok_iff mnemonic width bit arg) (ih _ _)
    | extra width =>
      cases args with
      | nil =>
        -- only an extra goes on without an argument, with zero for its value
        rw [partValues, bind_eq_ok_iff]
        constructor
        · rintro ⟨later, hlater, h⟩
          cases h
          obtain ⟨slots, hgiven, rfl⟩ := (ih _ _ _).mp hlater
          exact ⟨0 :: slots, .leftOut hgiven, rfl⟩
        · rintro ⟨slots, hgiven, rfl⟩
          cases hgiven with
          | leftOut hrest => exact ⟨_, (ih _ _ _).mpr ⟨_, hrest, rfl⟩, rfl⟩
      | cons arg args =>
        rw [partValues]
        exact take_eq_ok_iff set _ rest arg args _ _ values rfl
          (numericOperand_eq_ok_iff mnemonic width bit arg) (ih _ _)

/-- Values that were given fit their slots. -/
theorem Given.fits (set : InstructionSet) (parts : List Part) (args : List Token)
    (values : List UInt64) (h : Given set parts args values) : Format.Fits parts values := by
  induction h with
  | done => exact .nil
  | leftOut _ ih => exact .cons (Nat.two_pow_pos _) ih
  | @taken part _ _ _ _ _ harg _ ih =>
    refine .cons ?_ ih
    cases part with
    | constant => exact harg.elim
    | typed cls width => exact harg.2.2
    | immediate width => exact harg.2
    | extra width => exact harg.2

/-- Values that were given to typed slots have names. -/
theorem Given.isNamed (set : InstructionSet) (parts : List Part) (args : List Token)
    (slots : List UInt64) (h : Given set parts args slots) :
    ∀ entry ∈ parts.zip slots, ∀ cls width, entry.1 = .typed cls width →
      (set.nameOf? cls entry.2).isSome = true := by
  induction h with
  | done => exact nofun
  | leftOut _ ih =>
    rw [List.zip_cons_cons]
    exact List.forall_mem_cons.mpr ⟨nofun, ih⟩
  | taken harg _ ih =>
    rw [List.zip_cons_cons]
    refine List.forall_mem_cons.mpr ⟨?_, ih⟩
    rintro cls width rfl
    exact set.isSome_nameOf? cls _ _ harg.2.1

end Image

end WordAsm
