import WordAsm.Proofs.BuiltinSet
import WordAsm.Proofs.DerivedFields
import WordAsm.Proofs.InstructionEncoding
import WordAsm.Proofs.RealInstructions
import WordAsm.Proofs.Scanning

/-! Loading a constant with the built-in set. The pseudo-instruction `ldi` stands for the two
instructions that load the upper ten bits and the lower six of a word. The bits are selected when
the call is expanded, if the constant is a number, and when its label is resolved otherwise; in both
cases the two words hold the constant modulo 2 ^ 16. -/

namespace WordAsm

namespace Zirc16

/-- The opcode that a format starts with. -/
def opcode? : Format → Option UInt64
  | .constant 5 opcode :: _ => some opcode
  | _ => none

/-- Every format starts with an opcode of its own, and the registers are numbered below sixteen. -/
theorem table_spec :
    (∀ entry ∈ table.formats, (opcode? entry.2).isSome = true) ∧
      (∀ entry ∈ table.formats, ∀ other ∈ table.formats,
        opcode? entry.2 = opcode? other.2 → entry = other) ∧
      ∀ entry ∈ table.names, entry.cls = .register → entry.value.toNat < 2 ^ 4 := by
  decide +kernel

/-- A word has the opcode of every format that it can be read in. -/
theorem opcode_of_admits (entry : String × Format) (hentry : entry ∈ table.formats)
    (word : UInt64) (h : entry.2.admits word = true) :
    (opcode? entry.2).map UInt64.toNat = some (word.toNat / 2 ^ 11 % 2 ^ 5) := by
  have hwidth : entry.2.width = 16 := table.valid.format_width entry hentry
  have hagrees := (Format.admits_iff entry.2 word (table.valid.format_wellFormed entry hentry)
    (by omega)).mp h
  have hopcode := table_spec.1 entry hentry
  generalize entry.2 = format at hwidth hagrees hopcode
  unfold opcode? at hopcode ⊢
  split at hopcode
  · -- the opcode is the top digit of a word of sixteen bits
    rename_i opcode rest
    have hrest : Format.width rest = 11 := by
      change 5 + Format.width rest = 16 at hwidth
      omega
    have hdigit := hagrees.1
    rw [Format.digit, hrest] at hdigit
    exact congrArg some hdigit.symm
  · cases hopcode

/-- The words of the set are read as the instructions that they were encoded from. -/
theorem decode_packed (entry : String × Format) (hentry : entry ∈ table.formats)
    (args : List Token) (slots : List UInt64) (h : Image.Given table entry.2.slots args slots) :
    Decoder.decode table (Image.pack 0 entry.2 (entry.2.fill slots)) =
      some ⟨entry.1, entry.2, slots⟩ := by
  obtain ⟨-, hadmits, hfields⟩ := h.packed table entry hentry
  generalize Image.pack 0 entry.2 (entry.2.fill slots) = word at hadmits hfields
  have haccepts : Decoder.accepts table entry.2 word = true := by
    rw [Decoder.accepts, hadmits, hfields, Bool.true_and, Decoder.isNamed_iff]
    exact Image.Given.isNamed table entry.2.slots args slots h
  obtain ⟨decoded, hdecode⟩ := Decoder.exists_decode table word entry hentry haccepts
  obtain ⟨hmem, hother, hvalues⟩ := Decoder.decode_eq_some table word decoded hdecode
  -- two formats that the word can be read in have one opcode, so they are the same
  have hsame : entry = (decoded.mnemonic, decoded.format) := by
    apply table_spec.2.1 entry hentry _ hmem
    apply Option.map_injective fun a b => UInt64.toNat_inj.mp
    rw [opcode_of_admits entry hentry word hadmits,
      opcode_of_admits _ hmem word (Bool.and_eq_true_iff.mp hother).1]
  rw [hdecode, hsame, ← hfields, hsame, ← hvalues]

/-- An instruction whose slots are given their values has the bytes of a word that decodes to
them. -/
theorem statementBytes_of_given (entry : String × Format) (hentry : entry ∈ table.formats)
    (hdirective : Directive.isDirective entry.1 = false) (statement : Statement)
    (hkind : statement.kind ≠ .label) (hname : statement.mnemonic = entry.1) (slots : List UInt64)
    (h : Image.Given table entry.2.slots statement.args slots) :
    ∃ word, Image.statementBytes table statement = .ok (Word.encode 16 word) ∧
      Decoder.decode table word = some ⟨entry.1, entry.2, slots⟩ := by
  refine ⟨_, ?_, decode_packed entry hentry statement.args slots h⟩
  obtain ⟨-, hformat⟩ := (InstructionSet.mem_formats_iff table entry.1 entry.2).mp hentry
  rw [← hname] at hdirective hformat
  rw [Image.statementBytes_of_instruction table statement hkind hdirective]
  exact (Image.instructionBytes_eq_ok_iff table statement entry.2 hformat _).mpr
    ⟨slots, h, rfl⟩

theorem register_lt (name : String) (number : UInt64)
    (h : table.value? .register name = some number) : number.toNat < 2 ^ 4 := by
  obtain ⟨entry, hentry, hcls, -, rfl⟩ :=
    (InstructionSet.value?_eq_some_iff table .register name number).mp h
  exact table_spec.2.2 entry hentry hcls

/-- The bits of a constant that `lui` loads. -/
def upperBits : BitField := ⟨"value", 6, 10⟩

/-- The bits of a constant that `lim` loads. -/
def lowerBits : BitField := ⟨"value", 0, 6⟩

/-- The two fields make up the constant, as far as it fits a word. -/
theorem upper_mul_add_lower (value : UInt64) :
    (upperBits.apply value).toNat * 64 + (lowerBits.apply value).toNat =
      value.toNat % 2 ^ 16 := by
  rw [BitField.toNat_apply, BitField.toNat_apply]
  change value.toNat / 2 ^ 6 % 2 ^ 10 * 64 + value.toNat / 2 ^ 0 % 2 ^ 6 = value.toNat % 2 ^ 16
  omega

/-- The instruction that loads the upper bits. -/
def loadUpper (pos : Position) (bits : Token) : Statement :=
  .unplaced .instruction (.plain .identifier "lui" pos) [bits]

/-- The instruction that loads the lower bits and ends up with the constant in the register. -/
def loadLower (pos : Position) (register bits : Token) : Statement :=
  .unplaced .instruction (.plain .identifier "lim" pos) [register, bits]

/-- What `ldi` stands for. -/
def loads (pos : Position) (register upper lower : Token) : List Statement :=
  [loadUpper pos upper, loadLower pos register lower]

theorem mnemonic_loadUpper (pos : Position) (bits : Token) :
    (loadUpper pos bits).mnemonic = "lui" := by
  change Text.lower "lui" = "lui"
  decide

theorem mnemonic_loadLower (pos : Position) (register bits : Token) :
    (loadLower pos register bits).mnemonic = "lim" := by
  change Text.lower "lim" = "lim"
  decide

theorem retained_loads (pos : Position) (register upper lower : Token) :
    ∀ statement ∈ loads pos register upper lower, statement.retained = true := by
  rw [loads, List.forall_mem_cons, List.forall_mem_singleton, Statement.retained_iff,
    Statement.retained_iff, mnemonic_loadUpper, mnemonic_loadLower]
  exact ⟨⟨nofun, rfl⟩, nofun, rfl⟩

theorem sizeOf_loadUpper (pos : Position) (bits : Token) :
    Layout.sizeOf 16 (loadUpper pos bits) = 2 := by
  rw [Layout.sizeOf, mnemonic_loadUpper]
  rfl

theorem sizeOf_loadLower (pos : Position) (register bits : Token) :
    Layout.sizeOf 16 (loadLower pos register bits) = 2 := by
  rw [Layout.sizeOf, mnemonic_loadLower]
  rfl

theorem room_loads (pos : Position) (register upper lower : Token) :
    Layout.room 16 (loads pos register upper lower) = 2 := by
  rw [Layout.room, loads, List.map_cons, List.map_singleton, sizeOf_loadUpper, sizeOf_loadLower]
  rfl

theorem row_loads (place : UInt64) (pos : Position) (register upper lower : Token) :
    Layout.row 16 place (loads pos register upper lower) =
      [Layout.placedAt 16 place (loadUpper pos upper),
        Layout.placedAt 16 (place + 1) (loadLower pos register lower)] := by
  rw [loads, Layout.row, Layout.row, Layout.row, sizeOf_loadUpper]
  rfl

/-- The pseudo-instruction `ldi`, read. -/
def ldi : Pseudo where
  name := "ldi"
  params := ["rd", "value"]
  fields := [("hi", upperBits), ("lo", lowerBits)]
  body :=
    [.unplaced .instruction (.plain .identifier "lui" ⟨"", 1, 1⟩)
        [.plain .identifier "hi" ⟨"", 1, 5⟩],
      .unplaced .instruction (.plain .identifier "lim" ⟨"", 2, 1⟩)
        [.plain .identifier "rd" ⟨"", 2, 5⟩, .plain .identifier "lo" ⟨"", 2, 9⟩]]

theorem instantiate_ldi (call : Statement) (register arg upper lower : Token)
    (hargs : call.args = [register, arg]) (hupper : Pseudo.derive "ldi" upperBits arg = .ok upper)
    (hlower : Pseudo.derive "ldi" lowerBits arg = .ok lower) :
    ldi.instantiate call = .ok (loads call.name.pos register upper lower) := by
  have hfields : ldi.bindFields (ldi.bindFormals call.args) =
      .ok [("hi", upper), ("lo", lower)] := by
    rw [hargs]
    apply (mapM_eq_ok_iff ..).mpr
    refine .cons ?_ (.cons ?_ .nil)
    · change (Pseudo.derive "ldi" upperBits arg >>= fun derived => .ok ("hi", derived)) = _
      rw [hupper]
      rfl
    · change (Pseudo.derive "ldi" lowerBits arg >>= fun derived => .ok ("lo", derived)) = _
      rw [hlower]
      rfl
  rw [Pseudo.instantiate, hfields, hargs]
  rfl

end Zirc16

open Zirc16

/-- The place of a statement does not matter for its bytes. -/
theorem Image.statementBytes_placedAt (set : InstructionSet) (width : Nat) (place : UInt64)
    (statement : Statement) :
    statementBytes set (Layout.placedAt width place statement) = statementBytes set statement := by
  rw [statementBytes, statementBytes]
  rfl

/-- The token stands for the value: as a number, or as the label at that address. -/
def Token.Means (labels : NameMap UInt64) (token : Token) (value : UInt64) : Prop :=
  token.value = .ok value ∨
    token.kind = .identifier ∧ token.fields = [] ∧ labels.get? token.text = some value

/-- The field of a number is derived at once and that of a label by the layout, to the same. -/
theorem Token.Means.derive {labels : NameMap UInt64} {arg : Token} {value : UInt64}
    (h : arg.Means labels value) (name : String) (field : BitField) :
    ∃ derived, Pseudo.derive name field arg = .ok derived ∧
      Layout.resolveArg labels derived = .ok (.ofValue (field.apply value) arg.pos) := by
  rcases h with hvalue | ⟨hkind, hfields, haddress⟩
  · have hkind : arg.kind = .number := by
      by_contra hkind
      rw [Token.value, if_neg hkind] at hvalue
      cases hvalue
    refine ⟨.ofValue (field.apply value) arg.pos, ?_, rfl⟩
    rw [Pseudo.derive, hkind, hvalue]
  · refine ⟨{ arg with fields := arg.fields ++ [field] }, ?_, ?_⟩
    · rw [Pseudo.derive, hkind]
    · apply (Layout.resolveArg_eq_ok_iff ..).mpr
      rw [hfields]
      exact .inl ⟨hkind, value, haddress, rfl⟩

namespace Assembler

/-- What assembling with the built-in set relies on here. -/
theorem of_zirc16 {strict : Bool} {asm : Assembler}
    (h : ofSet InstructionSet.zirc16 strict = .ok asm) :
    asm.set = table ∧ PseudoTable.ofSet table = .ok asm.pseudos ∧
      asm.pseudos.find? "ldi" 2 = some ldi ∧ asm.pseudos.knows "dd" = false := by
  rw [InstructionSet.zirc16_eq_table] at h
  obtain ⟨pseudos, hpseudos, h⟩ := bind_eq_ok_iff.mp h
  cases h
  obtain ⟨known, hknown, hcheck⟩ := exists_ok_of_any (PseudoTable.ofSet table)
    (fun pseudos => pseudos.find? "ldi" 2 = some ldi ∧ pseudos.knows "dd" = false)
    (by decide +kernel)
  cases hpseudos.symm.trans hknown
  exact ⟨rfl, hpseudos, of_decide_eq_true hcheck⟩

end Assembler

namespace Zirc16

/-- The layout gives the two instructions their numbers. -/
theorem resolve_loads (labels : NameMap UInt64) (place : UInt64) (pos : Position)
    (register upper lower upper' lower' : Token) (hregister : register.kind = .register)
    (hupper : Layout.resolveArg labels upper = .ok upper')
    (hlower : Layout.resolveArg labels lower = .ok lower') :
    (Layout.row 16 place (loads pos register upper lower)).mapM (Layout.resolveArgs labels) =
      .ok (Layout.row 16 place (loads pos register upper' lower')) := by
  have hsame : Layout.resolveArg labels register = .ok register := by
    rw [Layout.resolveArg, hregister]
    rfl
  rw [row_loads, row_loads]
  apply (mapM_eq_ok_iff ..).mpr
  refine .cons ?_ (.cons ?_ .nil)
  · apply (Layout.resolveArgs_eq_ok_iff ..).mpr
    refine ⟨[upper'], .cons hupper .nil, ?_⟩
    rw [Layout.placedAt, Layout.placedAt, sizeOf_loadUpper, sizeOf_loadUpper]
    rfl
  · apply (Layout.resolveArgs_eq_ok_iff ..).mpr
    refine ⟨[register, lower'], .cons hsame (.cons hlower .nil), ?_⟩
    rw [Layout.placedAt, Layout.placedAt, sizeOf_loadLower, sizeOf_loadLower]
    rfl

/-- The two words hold the two fields of the constant. -/
theorem generate_loads (place : UInt64) (pos origin : Position) (register : Token)
    (number value : UInt64) (hregister : register.kind = .register)
    (hnumber : table.value? .register register.text = some number) :
    ∃ high low, Image.generate table (Layout.row 16 place (loads pos register
        (.ofValue (upperBits.apply value) origin) (.ofValue (lowerBits.apply value) origin))) =
          .ok (Word.encode 16 high ++ Word.encode 16 low) ∧
      Decoder.decode table high = some ⟨"lui", [.constant 5 10, .immediate 10, .constant 1 0],
        [upperBits.apply value]⟩ ∧
      Decoder.decode table low = some ⟨"lim",
        [.constant 5 9, .typed .register 4, .immediate 6, .constant 1 0],
        [number, lowerBits.apply value]⟩ := by
  have hupper : (upperBits.apply value).toNat < 2 ^ 10 := by
    rw [BitField.toNat_apply]
    exact Nat.mod_lt _ (Nat.two_pow_pos 10)
  have hlower : (lowerBits.apply value).toNat < 2 ^ 6 := by
    rw [BitField.toNat_apply]
    exact Nat.mod_lt _ (Nat.two_pow_pos 6)
  obtain ⟨high, hhigh, hdecode⟩ := statementBytes_of_given
    ("lui", [.constant 5 10, .immediate 10, .constant 1 0]) (by decide) rfl
    (loadUpper pos (.ofValue (upperBits.apply value) origin)) nofun (mnemonic_loadUpper pos _)
    [upperBits.apply value] (.taken ⟨Token.value_ofValue _ _, hupper⟩ (.done []))
  obtain ⟨low, hlow, hdecode'⟩ := statementBytes_of_given
    ("lim", [.constant 5 9, .typed .register 4, .immediate 6, .constant 1 0]) (by decide) rfl
    (loadLower pos register (.ofValue (lowerBits.apply value) origin)) nofun
    (mnemonic_loadLower pos _ _) [number, lowerBits.apply value]
    (.taken ⟨hregister, hnumber, register_lt _ _ hnumber⟩
      (.taken ⟨Token.value_ofValue _ _, hlower⟩ (.done [])))
  refine ⟨high, low, ?_, hdecode, hdecode'⟩
  rw [row_loads, ← List.singleton_append]
  apply (Image.generate_append_iff ..).mpr
  refine ⟨_, _, (Image.generate_singleton_iff ..).mpr ?_,
    (Image.generate_singleton_iff ..).mpr ?_, rfl⟩
  · rw [Image.statementBytes_placedAt]
    exact hhigh
  · rw [Image.statementBytes_placedAt]
    exact hlow

/-- Two words of data that are zero. -/
def doubleWord : Statement :=
  .unplaced .instruction (.plain .identifier "dd" (.start "")) [.ofValue 0 (.start "")]

theorem doubleWord_spec :
    doubleWord.mnemonic = "dd" ∧ doubleWord.retained = true ∧
      Layout.room 16 [doubleWord] = 2 ∧
      Image.statementBytes table doubleWord = .ok [0, 0, 0, 0] := by
  decide +kernel

theorem resolve_doubleWord (labels : NameMap UInt64) (place : UInt64) :
    (Layout.row 16 place [doubleWord]).mapM (Layout.resolveArgs labels) =
      .ok [Layout.placedAt 16 place doubleWord] := by
  rfl

theorem generate_doubleWord (place : UInt64) :
    Image.generate table [Layout.placedAt 16 place doubleWord] = .ok [0, 0, 0, 0] := by
  rw [Image.generate_singleton_iff, Image.statementBytes_placedAt]
  exact doubleWord_spec.2.2.2

end Zirc16

namespace Assembler

variable {asm : Assembler}

theorem expandAt_ldi (hpseudos : PseudoTable.ofSet table = .ok asm.pseudos)
    (hldi : asm.pseudos.find? "ldi" 2 = some ldi) (call : Statement)
    (hkind : call.kind = .instruction) (hname : call.mnemonic = "ldi")
    (register arg upper lower : Token) (hargs : call.args = [register, arg])
    (hupper : Pseudo.derive "ldi" upperBits arg = .ok upper)
    (hlower : Pseudo.derive "ldi" lowerBits arg = .ok lower) :
    asm.pseudos.expandAt 0 call = some (loads call.name.pos register upper lower) := by
  apply (PseudoTable.expandAt_eq_some_iff 0 (by decide) ..).mpr
  refine ⟨loads call.name.pos register upper lower, ?_, ?_⟩
  · have hknows : asm.pseudos.knows "ldi" = true :=
      List.any_eq_true.mpr ⟨ldi, (PseudoTable.find?_eq_some _ _ _ _ hldi).1, rfl⟩
    have hexpands : asm.pseudos.expands call = true := by
      rw [PseudoTable.expands, hname, hknows, hkind]
      rfl
    have hfind : asm.pseudos.find? "ldi" [register, arg].length = some ldi := hldi
    rw [PseudoTable.expandOnce, if_pos hexpands, hname, hargs, hfind]
    exact instantiate_ldi call register arg upper lower hargs hupper hlower
  · -- the two instructions are real ones, so that is where the expansion ends
    have hformats : ∀ statement ∈ loads call.name.pos register upper lower,
        (table.format? statement.mnemonic).isSome = true := by
      rw [loads, List.forall_mem_cons, List.forall_mem_singleton, mnemonic_loadUpper,
        mnemonic_loadLower]
      decide
    apply (Concatenates.iff_of_singletons _ _ _ ?_).mpr rfl
    intro statement hmem piece
    rw [PseudoTable.expandAt_of_plain 1 statement (PseudoTable.expands_of_format? table
      asm.pseudos hpseudos statement (hformats statement hmem)), Option.some.injEq]
    exact eq_comm

/-- Two words of zero fill a gap of two words. -/
theorem build_doubleWord_iff (hset : asm.set = table) (hdd : asm.pseudos.knows "dd" = false)
    (front back : List Statement) (program : Program) :
    asm.build (front ++ doubleWord :: back) = .ok program ↔
      ∃ around, asm.Surrounds front back 2 around ∧
        program = around.fill [Layout.placedAt 16 around.place doubleWord] [0, 0, 0, 0] := by
  have hplain : asm.pseudos.expands doubleWord = false := by
    rw [PseudoTable.expands, doubleWord_spec.1, hdd, Bool.and_false]
  have hwidth : asm.set.width = 16 := by
    rw [hset]
    rfl
  rw [build_around_iff asm doubleWord [doubleWord] (PseudoTable.expandAt_of_plain 0 _ hplain)
    (List.forall_mem_singleton.mpr doubleWord_spec.2.1), hwidth, doubleWord_spec.2.2.1, hset]
  simp only [resolve_doubleWord]
  constructor
  · rintro ⟨around, _, bytes, haround, ⟨⟩, hbytes, rfl⟩
    cases (generate_doubleWord around.place).symm.trans hbytes
    exact ⟨around, haround, rfl⟩
  · rintro ⟨around, haround, rfl⟩
    exact ⟨around, _, _, haround, rfl, generate_doubleWord around.place, rfl⟩

/-- Where `given` has two words of zero, `program` has two words that load `value` into the register
`number`, and what `front` and `back` stand for is around them in both, with the same labels. -/
def Loads (asm : Assembler) (front back : List Statement) (number value : UInt64)
    (given program : Program) : Prop :=
  ∃ (around : Surroundings) (room upper lower : Statement) (high low hi lo : UInt64),
    asm.Surrounds front back 2 around ∧
    given = around.fill [room] [0, 0, 0, 0] ∧
    program = around.fill [upper, lower] (Word.encode 16 high ++ Word.encode 16 low) ∧
    upper.address = around.place ∧ lower.address = around.place + 1 ∧
    (Decoder.decode asm.set high).map (fun decoded => (decoded.mnemonic, decoded.fields)) =
      some ("lui", [hi]) ∧
    (Decoder.decode asm.set low).map (fun decoded => (decoded.mnemonic, decoded.fields)) =
      some ("lim", [number, lo]) ∧
    hi.toNat * 64 + lo.toNat = value.toNat % 2 ^ 16

/-- A gap of two words takes two words of zero as well as a constant. -/
theorem Surrounds.loads {strict : Bool} (hasm : ofSet InstructionSet.zirc16 strict = .ok asm)
    {front back : List Statement} {around : Surroundings}
    (h : asm.Surrounds front back 2 around) (call : Statement)
    (hkind : call.kind = .instruction) (hname : call.mnemonic = "ldi") (register arg : Token)
    (hargs : call.args = [register, arg]) (hregister : register.kind = .register)
    (number value : UInt64)
    (hnumber : InstructionSet.zirc16.value? .register register.text = some number)
    (hvalue : arg.Means around.labels value) :
    ∃ given program, asm.build (front ++ doubleWord :: back) = .ok given ∧
      asm.build (front ++ call :: back) = .ok program ∧
      asm.Loads front back number value given program := by
  obtain ⟨hset, hpseudos, hldi, hdd⟩ := of_zirc16 hasm
  have hwidth : asm.set.width = 16 := by
    rw [hset]
    rfl
  rw [InstructionSet.zirc16_eq_table] at hnumber
  obtain ⟨upper, hupper, hupper'⟩ := hvalue.derive "ldi" upperBits
  obtain ⟨lower, hlower, hlower'⟩ := hvalue.derive "ldi" lowerBits
  obtain ⟨high, low, hbytes, hhigh, hlow⟩ :=
    generate_loads around.place call.name.pos arg.pos register number value hregister hnumber
  -- deriving the fields needs the argument alone, resolving them needs the labels
  have hprogram : asm.build (front ++ call :: back) = .ok (around.fill
      (Layout.row 16 around.place (Zirc16.loads call.name.pos register
        (.ofValue (upperBits.apply value) arg.pos) (.ofValue (lowerBits.apply value) arg.pos)))
      (Word.encode 16 high ++ Word.encode 16 low)) := by
    apply (build_around_iff asm call _ (expandAt_ldi hpseudos hldi call hkind hname register arg
      upper lower hargs hupper hlower) (retained_loads _ _ _ _) ..).mpr
    rw [hwidth, room_loads, hset]
    exact ⟨around, _, _, h, resolve_loads _ _ _ _ _ _ _ _ hregister hupper' hlower', hbytes, rfl⟩
  refine ⟨_, _, (build_doubleWord_iff hset hdd front back _).mpr ⟨around, h, rfl⟩, hprogram, ?_⟩
  rw [row_loads]
  refine ⟨around, _, _, _, high, low, upperBits.apply value, lowerBits.apply value, h, rfl, rfl,
    rfl, rfl, ?_, ?_, upper_mul_add_lower value⟩
  · rw [hset, hhigh]
    rfl
  · rw [hset, hlow]
    rfl

end Assembler

namespace FarLabel

/-- The call `ldi R7, far` at the start of a file. -/
def call : Statement :=
  .unplaced .instruction (.plain .identifier "ldi" ⟨"far.s", 1, 1⟩)
    [.plain .register "r7" ⟨"far.s", 1, 5⟩, .plain .identifier "far" ⟨"far.s", 1, 9⟩]

/-- A label far away, on the lines behind the call. -/
def back : List Statement :=
  [.unplaced .instruction (.plain .identifier "org" ⟨"far.s", 2, 1⟩)
      [⟨"FEDCBA9876543210", .number, 16, ⟨"far.s", 2, 5⟩, []⟩],
    .unplaced .label (.plain .identifier "far" ⟨"far.s", 3, 1⟩) [],
    .unplaced .instruction (.plain .identifier "hlt" ⟨"far.s", 3, 6⟩) []]

end FarLabel

end WordAsm
