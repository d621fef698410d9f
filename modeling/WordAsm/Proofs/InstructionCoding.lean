import Mathlib.Data.List.DropRight
import WordAsm.Listing
import WordAsm.Proofs.BuiltinSet
import WordAsm.Proofs.Numerals
import WordAsm.Proofs.OperandValues

/-! Instruction words and what they decode to. Written with the least names of its values and
without the extras at its end that are zero, what a word decodes to encodes to that word, and every
word that an instruction encodes to can be decoded, if not always as the same instruction. -/

namespace WordAsm

namespace Decoder

/-- The formats that are tried are those of the set. -/
@[simp]
theorem mem_candidates_iff (set : InstructionSet) (entry : String × Format) :
    entry ∈ candidates set ↔ entry ∈ set.formats := by
  obtain ⟨mnemonic, format⟩ := entry
  rw [candidates, mem_sortBy, entries, List.mem_map, set.mem_formats_iff]
  constructor
  · rintro ⟨other, hother, hentry⟩
    cases hentry
    obtain ⟨entry, hentry, rfl⟩ := List.mem_map.mp ((mem_sortBy _ _ _).mp hother)
    obtain ⟨hmem, hformat⟩ := (set.mem_formats_iff entry.1 entry.2).mp hentry
    exact ⟨hmem, by rw [hformat, Option.getD_some]⟩
  · rintro ⟨hmem, hformat⟩
    exact ⟨mnemonic, hmem, by rw [hformat, Option.getD_some]⟩

/-- What a word decodes to is one of the formats of the set that it can be read in. -/
theorem decode_eq_some (set : InstructionSet) (word : UInt64) (decoded : Decoded)
    (h : decode set word = some decoded) :
    (decoded.mnemonic, decoded.format) ∈ set.formats ∧
      accepts set decoded.format word = true ∧ decoded.fields = decoded.format.fields word := by
  obtain ⟨entry, hentry, rfl⟩ := Option.map_eq_some_iff.mp h
  have hmem := List.mem_of_find?_eq_some hentry
  have haccepts : accepts set entry.2 word = true :=
    List.find?_some (p := fun entry : String × Format => accepts set entry.2 word) hentry
  exact ⟨(mem_candidates_iff set entry).mp hmem, haccepts, rfl⟩

/-- A word decodes if it can be read in some format of the set. -/
theorem exists_decode (set : InstructionSet) (word : UInt64) (entry : String × Format)
    (hentry : entry ∈ set.formats) (h : accepts set entry.2 word = true) :
    ∃ decoded, decode set word = some decoded := by
  have hfound : ((candidates set).find? fun entry => accepts set entry.2 word).isSome = true := by
    rw [List.find?_isSome]
    exact ⟨entry, (mem_candidates_iff set entry).mpr hentry, h⟩
  obtain ⟨found, hfound⟩ := Option.isSome_iff_exists.mp hfound
  exact ⟨_, Option.map_eq_some_iff.mpr ⟨found, hfound, rfl⟩⟩

theorem isNamed_iff (set : InstructionSet) (format : Format) (fields : List UInt64) :
    isNamed set format fields = true ↔
      ∀ entry ∈ format.slots.zip fields, ∀ cls width, entry.1 = .typed cls width →
        (set.nameOf? cls entry.2).isSome = true := by
  rw [isNamed, List.all_eq_true]
  refine forall₂_congr fun entry _ => ?_
  obtain ⟨part, value⟩ := entry
  cases part with
  | typed cls width =>
    refine ⟨?_, fun h => h cls width rfl⟩
    rintro h cls' width' ⟨⟩
    exact h
  | constant | immediate | extra => exact ⟨fun _ => nofun, fun _ => rfl⟩

/-- The slots of a decoded word hold their values, and typed ones hold values that have a name. -/
theorem slots_of_decode (set : InstructionSet) (word : UInt64) (decoded : Decoded)
    (h : decode set word = some decoded) (entry : Part × UInt64)
    (hentry : entry ∈ decoded.format.slots.zip decoded.fields) :
    entry.2.toNat < 2 ^ entry.1.width ∧ ∀ cls width, entry.1 = .typed cls width →
      (set.nameOf? cls entry.2).isSome = true := by
  obtain ⟨-, haccepts, hfields⟩ := decode_eq_some set word decoded h
  rw [hfields] at hentry
  have hnamed := (isNamed_iff set _ _).mp (Bool.and_eq_true_iff.mp haccepts).2
  exact ⟨List.forall₂_zip (Format.fields_fit word decoded.format) hentry, hnamed entry hentry⟩

end Decoder

namespace Listing

/-- Dropping from the end spares an element unless it and all behind it are dropped. -/
theorem rdropWhile_cons {α : Type} (p : α → Bool) (a : α) (list : List α) :
    (a :: list).rdropWhile p =
      if p a = true ∧ list.rdropWhile p = [] then [] else a :: list.rdropWhile p := by
  rw [List.rdropWhile, List.rdropWhile, List.reverse_cons, List.dropWhile_append]
  cases hlist : list.reverse.dropWhile p with
  | nil =>
    by_cases ha : p a = true
    · simp [ha]
    · simp [ha]
  | cons b rest => simp

theorem isDefault_iff (entry : Part × UInt64) :
    isDefault entry = true ↔ ∃ width, entry = (.extra width, 0) := by
  obtain ⟨part, value⟩ := entry
  cases part with
  | extra width => simp [isDefault]
  | constant | typed | immediate => simp [isDefault]

/-- What is written ends with a slot that is no zero extra, and all that is left out are such. -/
theorem written_spec (decoded : Decoded) :
    ∃ omitted, decoded.format.slots.zip decoded.fields = written decoded ++ omitted ∧
      (∀ entry ∈ omitted, ∃ width, entry = (.extra width, 0)) ∧
      ∀ width, (written decoded).getLast? ≠ some (.extra width, 0) := by
  let slots := decoded.format.slots.zip decoded.fields
  refine ⟨(slots.reverse.takeWhile isDefault).reverse, ?_, ?_, ?_⟩
  · rw [written, ← List.reverse_append, List.takeWhile_append_dropWhile, List.reverse_reverse]
  · intro entry hentry
    rw [← isDefault_iff]
    exact List.mem_takeWhile_imp (List.mem_reverse.mp hentry)
  · intro width hlast
    rw [written, List.getLast?_reverse] at hlast
    have hnot := List.head?_dropWhile_not isDefault slots.reverse
    rw [hlast] at hnot
    cases hnot

/-- Arguments for all slots but the zero extras at the end give the slots their values. -/
theorem given_of_written (set : InstructionSet) (parts : List Part) (values : List UInt64)
    (args : List Token) (hlength : values.length = parts.length)
    (hargs : List.Forall₂ (fun entry arg => Image.Takes set entry.1 arg entry.2)
      ((parts.zip values).rdropWhile isDefault) args) :
    Image.Given set parts args values := by
  -- the first slot is left out together with all behind it, or it has the first argument
  induction parts generalizing values args with
  | nil =>
    rw [List.length_eq_zero_iff.mp hlength]
    exact .done args
  | cons part parts ih =>
    obtain ⟨value, values, rfl⟩ := List.exists_cons_of_length_eq_add_one hlength
    rw [List.zip_cons_cons, rdropWhile_cons] at hargs
    split at hargs
    · rename_i hdefault
      cases hargs
      have hrest := ih values [] (Nat.succ.inj hlength) (hdefault.2 ▸ .nil)
      cases part with
      | extra width =>
        have hzero : value = 0 := by simpa [isDefault] using hdefault.1
        rw [hzero]
        exact .leftOut hrest
      | constant | typed | immediate => exact absurd hdefault.1 Bool.false_ne_true
    · cases hargs with
      | cons harg hargs => exact .taken harg (ih values _ (Nat.succ.inj hlength) hargs)

theorem mem_zip_of_written (decoded : Decoded) (entry : Part × UInt64)
    (h : entry ∈ written decoded) : entry ∈ decoded.format.slots.zip decoded.fields :=
  (List.rdropWhile_prefix isDefault _).mem h

end Listing

namespace Image

theorem instructionWord_eq_ok_iff (set : InstructionSet) (statement : Statement)
    (word : UInt64) :
    instructionWord set statement = .ok word ↔
      ∃ format slots, set.format? statement.mnemonic = some format ∧
        Given set format.slots statement.args slots ∧ word = pack 0 format (format.fill slots) := by
  rw [instructionWord]
  cases hformat : set.format? statement.mnemonic with
  | none => exact ⟨nofun, fun ⟨_, _, h, _⟩ => nomatch h⟩
  | some format =>
    have hwidth : format.width = set.width :=
      set.valid.format_width _ (NameMap.mem_of_get? _ _ _ hformat)
    constructor
    · intro h
      obtain ⟨values, hvalues, h⟩ := bind_eq_ok_iff.mp h
      obtain ⟨_, _, h⟩ := bind_eq_ok_iff.mp h
      cases h
      obtain ⟨slots, hgiven, rfl⟩ := (partValues_eq_ok_iff ..).mp hvalues
      exact ⟨format, slots, rfl, hgiven, rfl⟩
    · rintro ⟨_, slots, ⟨⟩, hgiven, rfl⟩
      exact bind_eq_ok_iff.mpr ⟨_, (partValues_eq_ok_iff ..).mpr ⟨slots, hgiven, rfl⟩,
        bind_eq_ok_iff.mpr ⟨(), require_eq_ok_iff.mpr (decide_eq_true hwidth), rfl⟩⟩

theorem format?_of_mem (set : InstructionSet) (entry : String × Format)
    (hentry : entry ∈ set.formats) (name : String) (hname : Text.lower name = entry.1) :
    set.format? (Text.lower name) = some entry.2 := by
  rw [InstructionSet.format?, Text.lower_lower, hname]
  exact NameMap.get?_of_mem set.formats set.valid.mnemonics_nodup entry hentry

/-- An instruction whose arguments give a decoded word its slots encodes to that word. -/
theorem instructionWord_of_decode (set : InstructionSet) (word : UInt64)
    (decoded : Decoded) (hword : word.toNat < 2 ^ set.width)
    (hdecode : Decoder.decode set word = some decoded) (statement : Statement)
    (hname : statement.mnemonic = decoded.mnemonic)
    (hargs : List.Forall₂ (fun entry arg => Takes set entry.1 arg entry.2)
      (Listing.written decoded) statement.args) :
    instructionWord set statement = .ok word := by
  obtain ⟨hmem, haccepts, hfields⟩ := Decoder.decode_eq_some set word decoded hdecode
  have hwidth : decoded.format.width = set.width := set.valid.format_width _ hmem
  have hformat := set.valid.format_wellFormed _ hmem
  have hle : decoded.format.width ≤ 64 := hwidth ▸ set.valid.width_le
  have hlength : decoded.fields.length = decoded.format.slots.length := by
    rw [hfields]
    exact (Format.fields_fit word decoded.format).length_eq.symm
  refine (instructionWord_eq_ok_iff set statement word).mpr
    ⟨decoded.format, decoded.fields, ?_, ?_, ?_⟩
  · exact format?_of_mem set _ hmem statement.name.text hname
  · exact Listing.given_of_written set _ _ _ hlength hargs
  · rw [hfields]
    exact (Format.pack_fill_fields decoded.format word hformat hle (hwidth ▸ hword)
      (Bool.and_eq_true_iff.mp haccepts).1).symm

/-- The word packed for an instruction has the width of the set, and the format reads from it what
was given. -/
theorem Given.packed (set : InstructionSet) (entry : String × Format)
    (hentry : entry ∈ set.formats) (args : List Token) (slots : List UInt64)
    (h : Given set entry.2.slots args slots) :
    (pack 0 entry.2 (entry.2.fill slots)).toNat < 2 ^ set.width ∧
      entry.2.admits (pack 0 entry.2 (entry.2.fill slots)) = true ∧
      entry.2.fields (pack 0 entry.2 (entry.2.fill slots)) = slots := by
  have hwidth := set.valid.format_width entry hentry
  have hformat := set.valid.format_wellFormed entry hentry
  have hle : entry.2.width ≤ 64 := hwidth ▸ set.valid.width_le
  have hslots := Given.fits set entry.2.slots args slots h
  have hfits := Format.fits_fill entry.2 slots hformat hslots
  refine ⟨?_, Format.admits_pack entry.2 slots hformat hle hslots⟩
  rw [Format.toNat_pack_zero _ _ hfits hle, ← hwidth]
  exact Format.number_lt _ _ hfits

/-- A word that an instruction encodes to has the width of the set and decodes. -/
theorem exists_decode_of_instructionWord (set : InstructionSet)
    (statement : Statement) (word : UInt64) (h : instructionWord set statement = .ok word) :
    word.toNat < 2 ^ set.width ∧ ∃ decoded, Decoder.decode set word = some decoded := by
  obtain ⟨format, slots, hformat?, hgiven, rfl⟩ :=
    (instructionWord_eq_ok_iff set statement word).mp h
  have hmem := NameMap.mem_of_get? _ _ _ hformat?
  obtain ⟨hlt, hadmits, hfields⟩ := hgiven.packed set _ hmem
  refine ⟨hlt, Decoder.exists_decode set _ _ hmem ?_⟩
  rw [Decoder.accepts, hadmits, hfields, Bool.true_and, Decoder.isNamed_iff]
  exact Given.isNamed set format.slots statement.args slots hgiven

/-- A statement that is neither a label nor a directive is encoded as an instruction. -/
theorem statementBytes_of_instruction (set : InstructionSet) (statement : Statement)
    (hkind : statement.kind ≠ .label) (hname : Directive.isDirective statement.mnemonic = false) :
    statementBytes set statement = instructionBytes set statement := by
  rw [Directive.isDirective, Bool.or_eq_false_iff, Option.isSome_eq_false_iff,
    Option.isNone_iff_eq_none] at hname
  rw [statementBytes, if_neg hkind, hname.2, if_neg Bool.false_ne_true, hname.1]

end Image

namespace Decoded

/-- The argument that stands for the value of a slot: the name of the value, or a number. -/
def argument (set : InstructionSet) (pos : Position) : Part × UInt64 → Token
  | (.typed cls _, value) => .plain (.ofClass cls) ((set.nameOf? cls value).getD "") pos
  | (.constant .., value) | (.immediate _, value) | (.extra _, value) => .ofValue value pos

/-- The instruction that a decoded word is listed as, its immediates as numbers. -/
def statement (set : InstructionSet) (pos : Position) (decoded : Decoded) : Statement :=
  .unplaced .instruction (.plain .identifier decoded.mnemonic pos)
    ((Listing.written decoded).map (argument set pos))

/-- The arguments are the operands of the listing where no label has a place. -/
theorem render_operands (context : Listing.Context) (pos : Position) (decoded : Decoded)
    (hlabels : context.labels = []) :
    (Listing.operands context decoded).map Listing.Operand.render =
      (decoded.statement context.set pos).args.map Token.text := by
  have hrender (entry : Part × UInt64) :
      (Listing.operand context decoded.mnemonic entry.1 entry.2).render =
        (argument context.set pos entry).text := by
    obtain ⟨part, value⟩ := entry
    cases part with
    | constant | extra | typed => rfl
    | immediate width =>
      have hnumber : Listing.immediate context decoded.mnemonic value = .number value := by
        rw [Listing.immediate, hlabels]
        split
        · rw [List.contains_nil, Bool.and_false, if_neg Bool.false_ne_true]
        · rfl
      rw [Listing.operand, hnumber]
      rfl
  rw [Listing.operands, statement, Statement.unplaced, List.map_map, List.map_map]
  exact List.map_congr_left fun entry _ => hrender entry

theorem takes_argument (set : InstructionSet) (pos : Position) (part : Part)
    (value : UInt64) (hslot : part.isSlot = true) (hfits : value.toNat < 2 ^ part.width)
    (hnamed : ∀ cls width, part = .typed cls width → (set.nameOf? cls value).isSome = true) :
    Image.Takes set part (argument set pos (part, value)) value := by
  cases part with
  | constant => cases hslot
  | typed cls width =>
    obtain ⟨name, hname⟩ := Option.isSome_iff_exists.mp (hnamed cls width rfl)
    rw [argument, hname]
    exact ⟨rfl, set.value?_of_nameOf? cls value name hname, hfits⟩
  | immediate width => exact ⟨Token.value_ofValue value pos, hfits⟩
  | extra width => exact ⟨Token.value_ofValue value pos, hfits⟩

/-- The arguments of a decoded word give its slots their values. -/
theorem takes_written (set : InstructionSet) (pos : Position) (word : UInt64)
    (decoded : Decoded) (hdecode : Decoder.decode set word = some decoded) :
    List.Forall₂ (fun entry arg => Image.Takes set entry.1 arg entry.2)
      (Listing.written decoded) ((Listing.written decoded).map (argument set pos)) := by
  rw [List.forall₂_map_right_iff, List.forall₂_same]
  intro entry hentry
  have hmem := Listing.mem_zip_of_written decoded entry hentry
  have hslot : entry.1.isSlot = true :=
    (List.mem_filter.mp (List.of_mem_zip hmem).1).2
  obtain ⟨hfits, hnamed⟩ := Decoder.slots_of_decode set word decoded hdecode entry hmem
  exact takes_argument set pos entry.1 entry.2 hslot hfits hnamed

end Decoded

/-- Words and instructions of a set lead back to one another: what a word decodes to encodes to that
word when it is written as it would be listed, with an operand for every slot up to the last that is
no zero extra, and a word that an instruction encodes to decodes. -/
theorem decoded_words_encode_back (set : InstructionSet) :
    (∀ (word : UInt64) (decoded : Decoded) (pos : Position), word.toNat < 2 ^ set.width →
      Decoder.decode set word = some decoded →
      Image.instructionBytes set (decoded.statement set pos) = .ok (Word.encode set.width word) ∧
      (∃ omitted, decoded.format.slots.zip decoded.fields = Listing.written decoded ++ omitted ∧
        (∀ entry ∈ omitted, ∃ width, entry = (.extra width, 0)) ∧
        ∀ width, (Listing.written decoded).getLast? ≠ some (.extra width, 0)) ∧
      ∀ (origin : UInt64) (length : Nat),
        (Listing.operands ⟨set, origin, length, []⟩ decoded).map Listing.Operand.render =
          (decoded.statement set pos).args.map Token.text) ∧
    (∀ (statement : Statement) (bytes : List UInt8) (pos : Position),
      Image.instructionBytes set statement = .ok bytes →
      ∃ word decoded, bytes = Word.encode set.width word ∧ word.toNat < 2 ^ set.width ∧
        Decoder.decode set word = some decoded ∧
        Image.instructionBytes set (decoded.statement set pos) = .ok bytes) := by
  have hback (word : UInt64) (decoded : Decoded) (pos : Position)
      (hword : word.toNat < 2 ^ set.width) (hdecode : Decoder.decode set word = some decoded) :
      Image.instructionBytes set (decoded.statement set pos) =
        .ok (Word.encode set.width word) := by
    obtain ⟨hmem, _, _⟩ := Decoder.decode_eq_some set word decoded hdecode
    have hname : (decoded.statement set pos).mnemonic = decoded.mnemonic :=
      set.valid.mnemonic_lower (decoded.mnemonic, decoded.format) hmem
    have hencode := Image.instructionWord_of_decode set word decoded hword hdecode
      (decoded.statement set pos) hname (Decoded.takes_written set pos word decoded hdecode)
    exact bind_eq_ok_iff.mpr ⟨word, hencode, rfl⟩
  refine ⟨?_, ?_⟩
  · intro word decoded pos hword hdecode
    refine ⟨hback word decoded pos hword hdecode, Listing.written_spec decoded, ?_⟩
    intro origin length
    exact Decoded.render_operands ⟨set, origin, length, []⟩ pos decoded rfl
  · -- the word may decode as another instruction, which then encodes to the same bytes
    intro statement bytes pos h
    obtain ⟨word, hword, h⟩ := bind_eq_ok_iff.mp h
    cases h
    obtain ⟨hlt, decoded, hdecode⟩ :=
      Image.exists_decode_of_instructionWord set statement word hword
    exact ⟨word, decoded, rfl, hlt, hdecode, hback word decoded pos hlt hdecode⟩

/-- The branch word `0x780b` carries an extra, so all three of its operands are written. -/
theorem branch_word_encodes_back :
    ∃ decoded, Decoder.decode InstructionSet.zirc16 0x780b = some decoded ∧
      Image.instructionBytes InstructionSet.zirc16
        (decoded.statement InstructionSet.zirc16 (.start "")) = .ok [0x78, 0x0b] := by
  have hsome : (Decoder.decode InstructionSet.zirc16 0x780b).isSome = true := by
    rw [InstructionSet.zirc16_eq_table]
    decide +kernel
  have hwidth : InstructionSet.zirc16.width = 16 := by rw [InstructionSet.zirc16_eq_table]; rfl
  obtain ⟨decoded, hdecode⟩ := Option.isSome_iff_exists.mp hsome
  have hback := ((decoded_words_encode_back InstructionSet.zirc16).1 0x780b decoded (.start "")
    (by rw [hwidth]; decide) hdecode).1
  have hbytes : Word.encode 16 0x780b = [0x78, 0x0b] := by decide
  rw [hwidth, hbytes] at hback
  exact ⟨decoded, hdecode, hback⟩

end WordAsm
