import Mathlib.Data.Nat.Bitwise
import WordAsm.Proofs.SoundExpansion
import WordAsm.Proofs.Words

/-! Derived fields of pseudo-instructions. A field of a compiled pseudo-instruction has a name of
its own, selects from a formal and is not empty, and what it makes of a value are the bits of the
value that it names. Its end lies within 64 bits as long as the sum of shift and width does not wrap
around: the check adds them as words, so a field that starts near `2 ^ 64` passes as well. -/

namespace WordAsm

namespace BitField

theorem toNat_apply (field : BitField) (value : UInt64) :
    (field.apply value).toNat =
      value.toNat / 2 ^ field.shift.toNat % 2 ^ field.width.toNat := by
  rw [apply, Word.toNat_and_lowMask, Word.toNat_shr]

/-- The bits of a selection are those of the value from `shift` on, `width` of them. -/
theorem testBit_apply (field : BitField) (value : UInt64) (i : Nat) :
    (field.apply value).toNat.testBit i =
      (decide (i < field.width.toNat) && value.toNat.testBit (field.shift.toNat + i)) := by
  rw [toNat_apply, Nat.testBit_mod_two_pow, Nat.testBit_div_two_pow, Nat.add_comm]

/-- Where the sum of shift and width, as a word, is at most 64, it is so as a number or it wrapped
around once. -/
theorem end_le_or_wraps (field : BitField) (h : field.shift + field.width ≤ 64) :
    field.shift.toNat + field.width.toNat ≤ 64 ∨
      2 ^ 64 ≤ field.shift.toNat + field.width.toNat ∧
        field.shift.toNat + field.width.toNat ≤ 2 ^ 64 + 64 := by
  have hshift : field.shift.toNat < 2 ^ 64 := field.shift.toNat_lt
  have hwidth : field.width.toNat < 2 ^ 64 := field.width.toNat_lt
  have hsum : (field.shift.toNat + field.width.toNat) % 2 ^ 64 ≤ 64 := by
    rw [UInt64.le_iff_toNat_le, UInt64.toNat_add] at h
    exact h
  omega

end BitField

/-- What holds for a derived field under its name, beside the formals of its pseudo-instruction. -/
structure BitField.Derives (params : List String) (entry : String × BitField) : Prop where
  name : entry.1 ∉ params
  param : entry.2.param ∈ params
  width_pos : 1 ≤ entry.2.width.toNat
  /-- The last bit exists, unless the range check wrapped around. -/
  range : entry.2.shift.toNat + entry.2.width.toNat ≤ 64 ∨
    2 ^ 64 ≤ entry.2.shift.toNat + entry.2.width.toNat ∧
      entry.2.shift.toNat + entry.2.width.toNat ≤ 2 ^ 64 + 64
  bits : ∀ (value : UInt64) (i : Nat), (entry.2.apply value).toNat.testBit i =
    (decide (i < entry.2.width.toNat) && value.toNat.testBit (entry.2.shift.toNat + i))

theorem Pseudo.derives_of_compile (lexicon : Lexicon) (text : PseudoText) (pseudo : Pseudo)
    (h : compile lexicon text = .ok pseudo) :
    pseudo.fields = text.fields ∧
      ∀ entry ∈ text.fields, BitField.Derives pseudo.params entry := by
  obtain ⟨hfields, -, hfit⟩ := of_compile lexicon text pseudo h
  refine ⟨hfields, ?_⟩
  intro entry hentry
  obtain ⟨hname, hparam, hwidth, hsum⟩ := (fieldFault?_eq_none_iff ..).mp (hfit entry hentry)
  refine ⟨hname, hparam, ?_, entry.2.end_le_or_wraps hsum, entry.2.testBit_apply⟩
  apply Nat.pos_of_ne_zero
  intro hzero
  exact hwidth (UInt64.toNat_inj.mp hzero)

namespace PseudoTable

/-- A table holds the texts of a set compiled, in order. -/
theorem compiles_of_foldlM (set : InstructionSet) (texts : List PseudoText)
    (known table : PseudoTable) (h : texts.foldlM (add set) known = .ok table) :
    ∃ added, table = known ++ added ∧
      List.Forall₂ (fun text pseudo => Pseudo.compile set.classOf? text = .ok pseudo)
        texts added := by
  induction texts generalizing known with
  | nil =>
    cases h
    exact ⟨[], (List.append_nil _).symm, .nil⟩
  | cons text texts ih =>
    rw [List.foldlM_cons] at h
    obtain ⟨next, hadd, h⟩ := bind_eq_ok_iff.mp h
    obtain ⟨pseudo, hpseudo, rfl⟩ := compile_of_add set known next text hadd
    obtain ⟨added, rfl, hadded⟩ := ih _ h
    exact ⟨pseudo :: added, by simp, .cons hpseudo hadded⟩

end PseudoTable

/-- Where the pseudo-instructions of a set compile, they keep their derived fields, and each field
has a name of its own and selects bits of a formal. -/
theorem derived_fields_select_bits (set : InstructionSet) (table : PseudoTable)
    (h : PseudoTable.ofSet set = .ok table) :
    List.Forall₂ (fun text pseudo => pseudo.fields = text.fields ∧
      ∀ entry ∈ text.fields, BitField.Derives pseudo.params entry) set.pseudos table := by
  obtain ⟨added, rfl, hadded⟩ := PseudoTable.compiles_of_foldlM set set.pseudos [] table h
  exact hadded.imp fun text pseudo => Pseudo.derives_of_compile set.classOf? text pseudo

/-- A set with a pseudo-instruction that puts eight bits of its argument, from `shift` on. -/
def putByte (shift : UInt64) : Definition where
  name := "bytes"
  width := 16
  formats := [("put", "00000000 \x7bIMM8\x7d")]
  names := []
  pseudos := [⟨"putb a", "put f", [("f", ⟨"a", shift, 8⟩)]⟩]
  branches := []
  terminals := []

def putByte.set (shift : UInt64) : InstructionSet :=
  ⟨"bytes", 16, [("put", [.constant 8 0, .immediate 8])], [], (putByte shift).pseudos, [], [],
    by decide +kernel⟩

/-- The last byte that there is can be selected. -/
theorem putByte_selects_last :
    ∃ pseudo, InstructionSet.ofDefinition (putByte 56) = .ok (putByte.set 56) ∧
      PseudoTable.ofSet (putByte.set 56) = .ok [pseudo] ∧
      BitField.Derives pseudo.params ("f", ⟨"a", 56, 8⟩) ∧
      BitField.apply ⟨"a", 56, 8⟩ 0xab00000000000001 = 0xab := by
  have hset : InstructionSet.ofDefinition (putByte 56) = .ok (putByte.set 56) := by
    decide +kernel
  obtain ⟨table, htable, -⟩ := exists_ok_of_any (PseudoTable.ofSet (putByte.set 56))
    (fun _ => true) (by decide +kernel)
  have hfields := derived_fields_select_bits (putByte.set 56) table htable
  cases hfields with
  | cons hfirst hrest =>
    cases hrest
    refine ⟨_, hset, htable, ?_, ?_⟩
    · exact hfirst.2 _ (List.mem_singleton_self _)
    · decide

/-- A field that starts four bits below `2 ^ 64` passes although no bit of it exists. -/
theorem putByte_wraps_around :
    ∃ table, InstructionSet.ofDefinition (putByte 0xfffffffffffffffc) =
        .ok (putByte.set 0xfffffffffffffffc) ∧
      PseudoTable.ofSet (putByte.set 0xfffffffffffffffc) = .ok table ∧
      ∃ pseudo ∈ table, ∃ entry ∈ pseudo.fields,
        64 < entry.2.shift.toNat + entry.2.width.toNat := by
  have hset : InstructionSet.ofDefinition (putByte 0xfffffffffffffffc) =
      .ok (putByte.set 0xfffffffffffffffc) := by
    decide +kernel
  obtain ⟨table, htable, hwide⟩ := exists_ok_of_any
    (PseudoTable.ofSet (putByte.set 0xfffffffffffffffc))
    (fun table => table.any fun pseudo => pseudo.fields.any fun entry =>
      decide (64 < entry.2.shift.toNat + entry.2.width.toNat)) (by decide +kernel)
  refine ⟨table, hset, htable, ?_⟩
  simpa only [List.any_eq_true, decide_eq_true_eq] using hwide

end WordAsm
