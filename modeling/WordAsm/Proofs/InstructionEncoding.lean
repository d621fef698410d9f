import WordAsm.Proofs.InstructionCoding
import WordAsm.Proofs.LayoutAgreement

/-! What an instruction encodes to. Every slot of its format takes the argument in its place, and an
extra without one is zero; the instruction encodes exactly when all of these values exist and fit
their slots, and the format reads them back from the bytes that were written. -/

namespace WordAsm

namespace Image

/-- The value that a slot takes from the argument in its place, if there is one. -/
def operand? (set : InstructionSet) : Part → Option Token → Option UInt64
  | .typed cls _, some arg => if arg.kind = .ofClass cls then set.value? cls arg.text else none
  | .immediate _, some arg | .extra _, some arg =>
    if arg.kind = .number then arg.value.toOption else none
  | .extra _, none => some 0
  | _, _ => none

theorem toOption_value_eq_some_iff (arg : Token) (value : UInt64) :
    (if arg.kind = .number then arg.value.toOption else none) = some value ↔
      arg.value = .ok value := by
  rw [Token.value]
  split
  · cases Text.readNumeral arg.radix arg.text.toList <;> simp [Except.toOption]
  · simp

theorem takes_iff (set : InstructionSet) (part : Part) (arg : Token) (value : UInt64) :
    Takes set part arg value ↔
      operand? set part (some arg) = some value ∧ value.toNat < 2 ^ part.width := by
  cases part with
  | constant => exact ⟨False.elim, nofun⟩
  | typed cls width =>
    rw [Takes, operand?]
    by_cases hkind : arg.kind = .ofClass cls
    · rw [if_pos hkind]
      exact ⟨And.right, fun h => ⟨hkind, h⟩⟩
    · rw [if_neg hkind]
      exact ⟨fun h => absurd h.1 hkind, nofun⟩
  | immediate width => exact and_congr_left fun _ => (toOption_value_eq_some_iff arg value).symm
  | extra width => exact and_congr_left fun _ => (toOption_value_eq_some_iff arg value).symm

/-- The first slot takes the first argument, and the slots behind it those behind. -/
theorem given_cons_iff (set : InstructionSet) (part : Part) (parts : List Part)
    (args : List Token) (values : List UInt64) :
    Given set (part :: parts) args values ↔
      ∃ value later, values = value :: later ∧
        (operand? set part args[0]? = some value ∧ value.toNat < 2 ^ part.width) ∧
        Given set parts args.tail later := by
  constructor
  · intro h
    cases h with
    | leftOut hrest => exact ⟨0, _, rfl, ⟨rfl, Nat.two_pow_pos _⟩, hrest⟩
    | taken harg hrest => exact ⟨_, _, rfl, (takes_iff ..).mp harg, hrest⟩
  · rintro ⟨value, later, rfl, hvalue, hrest⟩
    cases args with
    | cons arg args => exact .taken ((takes_iff ..).mpr hvalue) hrest
    | nil =>
      cases part with
      | extra width =>
        cases hvalue.1
        exact .leftOut hrest
      | constant | typed | immediate => cases hvalue.1

/-- The arguments give the slots their values exactly when each slot takes one that fits. -/
theorem exists_given_iff (set : InstructionSet) (parts : List Part) (args : List Token) :
    (∃ values, Given set parts args values) ↔
      ∀ (slot : Nat) (part : Part), parts[slot]? = some part →
        ∃ value, operand? set part args[slot]? = some value ∧ value.toNat < 2 ^ part.width := by
  induction parts generalizing args with
  | nil => exact ⟨fun _ _ _ => nofun, fun _ => ⟨[], .done args⟩⟩
  | cons part parts ih =>
    constructor
    · rintro ⟨values, h⟩ slot other hother
      obtain ⟨value, later, -, hvalue, hlater⟩ := (given_cons_iff ..).mp h
      cases slot with
      | zero =>
        cases hother
        exact ⟨value, hvalue⟩
      | succ slot =>
        have htaken := (ih args.tail).mp ⟨later, hlater⟩ slot other hother
        rwa [List.getElem?_tail] at htaken
    · intro h
      obtain ⟨value, hvalue⟩ := h 0 part rfl
      obtain ⟨later, hlater⟩ := (ih args.tail).mpr fun slot other hother => by
        rw [List.getElem?_tail]
        exact h (slot + 1) other hother
      exact ⟨value :: later, (given_cons_iff ..).mpr ⟨value, later, rfl, hvalue, hlater⟩⟩

theorem Given.getElem?_eq (set : InstructionSet) (parts : List Part) (args : List Token)
    (values : List UInt64) (h : Given set parts args values) (slot : Nat) :
    values[slot]? = parts[slot]?.bind fun part => operand? set part args[slot]? := by
  induction parts generalizing args values slot with
  | nil =>
    cases h
    rfl
  | cons part parts ih =>
    obtain ⟨value, later, rfl, hvalue, hlater⟩ := (given_cons_iff ..).mp h
    cases slot with
    | zero => exact hvalue.1.symm
    | succ slot =>
      have hslot := ih args.tail later hlater slot
      rwa [List.getElem?_tail] at hslot

/-- The bytes of the last statement stand behind those of the statements in front of it. -/
theorem generate_concat (set : InstructionSet) (front : List Statement) (statement : Statement)
    (image bytes : List UInt8) (hfront : generate set front = .ok image)
    (hbytes : statementBytes set statement = .ok bytes) :
    generate set (front ++ [statement]) = .ok (image ++ bytes) := by
  obtain ⟨blocks, hblocks, rfl⟩ := (generate_eq_ok_iff ..).mp hfront
  refine (generate_eq_ok_iff ..).mpr ⟨blocks ++ [bytes], ?_, ?_⟩
  · exact List.rel_append hblocks (.cons hbytes .nil)
  · rw [List.flatten_append, List.flatten_singleton]

/-- The bytes of an instruction, of the width of the set, hold what its slots were given. -/
theorem instructionBytes_eq_ok_iff (set : InstructionSet)
    (statement : Statement) (format : Format)
    (hformat : set.format? statement.mnemonic = some format) (bytes : List UInt8) :
    instructionBytes set statement = .ok bytes ↔
      ∃ slots, Given set format.slots statement.args slots ∧
        bytes = Word.encode set.width (pack 0 format (format.fill slots)) := by
  rw [instructionBytes, bind_eq_ok_iff]
  constructor
  · rintro ⟨word, hword, h⟩
    cases h
    obtain ⟨format', slots, hformat', hgiven, rfl⟩ :=
      (instructionWord_eq_ok_iff set ..).mp hword
    cases hformat.symm.trans hformat'
    exact ⟨slots, hgiven, rfl⟩
  · rintro ⟨slots, hgiven, rfl⟩
    exact ⟨_, (instructionWord_eq_ok_iff set ..).mpr ⟨format, slots, hformat, hgiven, rfl⟩,
      rfl⟩

/-- The format reads back from the bytes what its slots were given. -/
theorem Given.read_back (set : InstructionSet) (entry : String × Format)
    (hentry : entry ∈ set.formats) (args : List Token) (slots : List UInt64)
    (h : Given set entry.2.slots args slots) (bytes : List UInt8)
    (hbytes : bytes = Word.encode set.width (pack 0 entry.2 (entry.2.fill slots))) :
    entry.2.admits (Word.decode set.width bytes) = true ∧
      entry.2.fields (Word.decode set.width bytes) = slots := by
  obtain ⟨hlt, hread⟩ := h.packed set entry hentry
  have hmod : set.width % 8 = 0 := by
    have := set.valid.width_mod
    omega
  rwa [hbytes, Word.decode_encode set.width _ set.valid.width_le hmod hlt]

end Image

/-- An instruction of a set encodes exactly when each slot of its format takes an operand that fits
it. The bytes are appended to the image, and the word in them has the constants of the format and
the operands in its fields. -/
theorem instructions_encode_exactly (set : InstructionSet) (mnemonic : String)
    (hmnemonic : mnemonic ∈ set.mnemonics) :
    ∃ format, set.format? mnemonic = some format ∧
      ∀ statement : Statement, statement.mnemonic = mnemonic →
        ((∃ bytes, Image.instructionBytes set statement = .ok bytes) ↔
          ∀ (slot : Nat) (part : Part), format.slots[slot]? = some part →
            ∃ value, Image.operand? set part statement.args[slot]? = some value ∧
              value.toNat < 2 ^ part.width) ∧
        ∀ bytes, Image.instructionBytes set statement = .ok bytes →
          bytes.length = set.width / 8 ∧
          format.admits (Word.decode set.width bytes) = true ∧
          (∀ slot : Nat, (format.fields (Word.decode set.width bytes))[slot]? =
            format.slots[slot]?.bind fun part =>
              Image.operand? set part statement.args[slot]?) ∧
          (statement.kind ≠ .label → Directive.isDirective mnemonic = false →
            ∀ front image, Image.generate set front = .ok image →
              Image.generate set (front ++ [statement]) = .ok (image ++ bytes)) := by
  obtain ⟨entry, hentry, rfl⟩ : ∃ entry ∈ set.formats, entry.1 = mnemonic :=
    List.mem_map.mp ((mem_sortBy _ mnemonic set.formats.names).mp hmnemonic)
  have hformat : set.format? entry.1 = some entry.2 := by
    rw [InstructionSet.format?, set.valid.mnemonic_lower entry hentry]
    exact NameMap.get?_of_mem set.formats set.valid.mnemonics_nodup entry hentry
  refine ⟨entry.2, hformat, fun statement hname => ?_⟩
  have hencodes := Image.instructionBytes_eq_ok_iff set statement entry.2 (hname ▸ hformat)
  constructor
  · rw [← Image.exists_given_iff]
    constructor
    · rintro ⟨bytes, hbytes⟩
      obtain ⟨slots, hgiven, -⟩ := (hencodes bytes).mp hbytes
      exact ⟨slots, hgiven⟩
    · rintro ⟨slots, hgiven⟩
      exact ⟨_, (hencodes _).mpr ⟨slots, hgiven, rfl⟩⟩
  · intro bytes hbytes
    obtain ⟨slots, hgiven, hencoded⟩ := (hencodes bytes).mp hbytes
    obtain ⟨hadmits, hfields⟩ := hgiven.read_back set entry hentry _ _ bytes hencoded
    refine ⟨Image.length_instructionBytes set statement bytes hbytes, hadmits, fun slot => ?_,
      fun hkind hdirective front image hfront => ?_⟩
    · rw [hfields]
      exact hgiven.getElem?_eq set _ _ _ slot
    · have hstatement := Image.statementBytes_of_instruction set statement hkind
        (hname ▸ hdirective)
      exact Image.generate_concat set front statement image bytes hfront (hstatement.trans hbytes)

/-- A set of 64 bits whose only instruction has an extra in front of the slots that need an
argument. -/
def leadingExtra : Definition where
  name := "wide"
  width := 64
  formats := [("put", "\x7bE8\x7d 1010 \x7bR4\x7d \x7bIMM48\x7d")]
  names := [⟨"r2", .register, 2⟩]
  pseudos := []
  branches := []
  terminals := []

def leadingExtra.set : InstructionSet :=
  ⟨"wide", 64, [("put", [.extra 8, .constant 4 10, .typed .register 4, .immediate 48])],
    [⟨"r2", .register, 2⟩], [], [], [], by decide +kernel⟩

def leadingExtra.put (args : List Token) : Statement :=
  .unplaced .instruction (.plain .identifier "PUT" (.start "")) args

/-- With its three operands and one argument more the instruction encodes, with the extra alone it
does not. -/
theorem leadingExtra_encodes :
    ∃ set, InstructionSet.ofDefinition leadingExtra = .ok set ∧
      (∃ bytes, Image.instructionBytes set (leadingExtra.put
          [.ofValue 5 (.start ""), .plain (.ofClass .register) "R2" (.start ""),
            .ofValue 0xffffffffffff (.start ""), .ofValue 7 (.start "")]) = .ok bytes ∧
        bytes.length = 8) ∧
      ¬ ∃ bytes, Image.instructionBytes set (leadingExtra.put [.ofValue 5 (.start "")]) =
        .ok bytes := by
  have hset : InstructionSet.ofDefinition leadingExtra = .ok leadingExtra.set := by
    decide +kernel
  obtain ⟨format, hformat, hput⟩ := instructions_encode_exactly leadingExtra.set "put"
    (by decide)
  have hfound : some format =
      some [.extra 8, .constant 4 10, .typed .register 4, .immediate 48] :=
    hformat.symm.trans (by decide +kernel)
  cases hfound
  refine ⟨_, hset, ?_, ?_⟩
  · obtain ⟨hencodes, hbytes⟩ := hput (leadingExtra.put
      [.ofValue 5 (.start ""), .plain (.ofClass .register) "R2" (.start ""),
        .ofValue 0xffffffffffff (.start ""), .ofValue 7 (.start "")]) (by decide +kernel)
    obtain ⟨bytes, hok⟩ := hencodes.mpr fun slot part hpart => by
      match slot with
      | 0 =>
        cases hpart
        exact ⟨5, by decide +kernel, by decide⟩
      | 1 =>
        cases hpart
        exact ⟨2, by decide +kernel, by decide⟩
      | 2 =>
        cases hpart
        exact ⟨0xffffffffffff, by decide +kernel, by decide⟩
      | slot + 3 => cases hpart
    exact ⟨bytes, hok, (hbytes bytes hok).1⟩
  · rintro ⟨bytes, hbytes⟩
    obtain ⟨value, hvalue, -⟩ := (hput _ (by decide +kernel)).1.mp ⟨bytes, hbytes⟩ 1
      (.typed .register 4) rfl
    cases hvalue

end WordAsm
