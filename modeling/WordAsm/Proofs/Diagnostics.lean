import WordAsm.Proofs.BuiltinSet
import WordAsm.Proofs.SoundExpansion

/-! Diagnostics of the assembler. Each stage gets what it expects from the stages before it, so no
fault is internal, and every fault stands at a character of the source, however deep in templates
it was found. The set is to blame for a fault only if its templates call one another without end,
which those of the built-in set do not. -/

namespace WordAsm

namespace Assembler

/-- The expansion of the source takes more rounds than allowed, which is the fault `e`. -/
def Overruns (asm : Assembler) (file : String) (source : List Char) (e : Error) : Prop :=
  ∃ tokens parsed mnemonic, asm.scan file source = .ok tokens ∧
    Statement.parse tokens = .ok parsed ∧ asm.pseudos.expand parsed = .error e ∧
    e.fault = .endlessExpansion mnemonic PseudoTable.maxRounds

/-- The fault stands in the source, and it is one of the program unless expansion overruns. -/
structure Faulty (asm : Assembler) (file : String) (source : List Char) (e : Error) : Prop where
  pos : e.pos.PointsInto file source
  kind : e.fault.kind ∈ [FaultKind.lexical, .grammatical, .semantic] ∨ asm.Overruns file source e

variable {asm : Assembler} {file : String} {source : List Char}

theorem Faulty.not_internal {e : Error} (h : asm.Faulty file source e) :
    e.fault.kind ≠ .internal := by
  rcases h.kind with hkind | ⟨tokens, parsed, mnemonic, -, -, -, hfault⟩
  · intro hinternal
    rw [hinternal] at hkind
    exact absurd hkind (by decide)
  · rw [hfault]
    exact nofun

theorem Faulty.overruns {e : Error} (h : asm.Faulty file source e)
    (hkind : e.fault.kind = .configuration) : asm.Overruns file source e := by
  apply h.kind.resolve_left
  rw [hkind]
  decide

theorem faulty_of_found (asm : Assembler) {kinds : List FaultKind}
    (hkinds : kinds ⊆ [.lexical, .grammatical, .semantic]) {e : Error}
    (h : e.Found kinds (Position.PointsInto file source)) : asm.Faulty file source e :=
  ⟨h.pos, .inl (hkinds h.kind)⟩

/-- A stage whose faults are faults of the program. -/
theorem ends_faulty (asm : Assembler) {α : Type} {P : α → Prop} {run : Except Error α}
    {kinds : List FaultKind} (hkinds : kinds ⊆ [.lexical, .grammatical, .semantic])
    (h : Ends P (Error.Found kinds (Position.PointsInto file source)) run) :
    Ends P (asm.Faulty file source) run :=
  h.imp (fun _ _ => id) fun _ _ => faulty_of_found asm hkinds

theorem ends_statements (hcompiled : asm.pseudos.Compiled) (tokens : List Token)
    (htokens : asm.scan file source = .ok tokens) :
    Ends (fun statements => ∀ statement ∈ statements,
        statement.Sound (Position.PointsInto file source) ∧ asm.pseudos.expands statement = false)
      (asm.Faulty file source) (asm.statements tokens) := by
  have hsound := (Token.ends_scan asm.set.classOf? file source).of_ok htokens
  apply (ends_faulty asm (by decide) (Statement.ends_parse tokens hsound)).bind
  intro parsed hparsed hsound
  apply (PseudoTable.ends_expandIn hcompiled PseudoTable.maxRounds parsed hsound).imp
  · intro expanded _ hexpanded
    exact hexpanded
  · -- only here a stage has a fault that is not one of the program
    intro e hexpand he
    rcases he with he | ⟨hpos, mnemonic, hfault⟩
    · exact faulty_of_found asm (by decide) he
    · exact ⟨hpos, .inr ⟨tokens, parsed, mnemonic, htokens, hparsed, hexpand, hfault⟩⟩

/-- Whatever the source is, assembling ends in a program or in a fault of the source. -/
theorem ends_assemble (hcompiled : asm.pseudos.Compiled) :
    Ends (fun _ => True) (asm.Faulty file source) (asm.assemble file source) := by
  apply (ends_faulty asm (by decide) (Token.ends_scan asm.set.classOf? file source)).bind
  intro tokens htokens _
  apply (ends_statements hcompiled tokens htokens).bind
  intro statements _ hstatements
  have hlayout := Layout.ends_resolve asm.set.width asm.strict statements fun statement hmem =>
    (hstatements statement hmem).1
  apply (ends_faulty asm (by decide) hlayout).bind
  intro layout _ hlaid
  apply (ends_faulty asm (by decide) (Image.ends_generate layout.statements hlaid)).bind
  intro code _ _
  trivial

/-- The built-in set has an assembler, and its templates call no pseudo-instructions. -/
theorem exists_flat_zirc16 (strict : Bool) :
    ∃ asm, ofSet InstructionSet.zirc16 strict = .ok asm ∧ asm.pseudos.Flat := by
  have hcheck : ((PseudoTable.ofSet InstructionSet.zirc16).toOption.any fun pseudos =>
      decide pseudos.Flat) = true := by
    rw [InstructionSet.zirc16_eq_table]
    decide +kernel
  obtain ⟨pseudos, hpseudos, hflat⟩ := exists_ok_of_any _ _ hcheck
  exact ⟨⟨InstructionSet.zirc16, pseudos, strict⟩,
    bind_eq_ok_iff.mpr ⟨pseudos, hpseudos, rfl⟩, of_decide_eq_true hflat⟩

/-- Expansion with flat templates does not overrun. -/
theorem not_overruns_of_flat (hcompiled : asm.pseudos.Compiled) (hflat : asm.pseudos.Flat)
    (e : Error) : ¬ asm.Overruns file source e := by
  rintro ⟨tokens, parsed, mnemonic, htokens, hparsed, hexpand, hfault⟩
  have htokens := (Token.ends_scan asm.set.classOf? file source).of_ok htokens
  have hparsed := (Statement.ends_parse tokens htokens).of_ok hparsed
  have hfound := (PseudoTable.ends_expand_of_flat hcompiled hflat parsed hparsed).of_error hexpand
  have hkind := hfound.kind
  rw [hfault] at hkind
  simp [Fault.kind] at hkind

end Assembler

/-- No fault of assembling is internal, and the set is to blame only if expansion overruns, never
the built-in one. Numbers can be read in every stage; expansion leaves no pseudo-instructions, and
layout neither labels nor origins nor references to labels. -/
theorem stages_meet_what_they_expect (set : InstructionSet) (strict : Bool) (asm : Assembler)
    (hasm : Assembler.ofSet set strict = .ok asm) (file : String) (source : List Char) :
    (∀ e, asm.assemble file source = .error e → e.fault.kind ≠ .internal ∧
      (e.fault.kind = .configuration → asm.Overruns file source e)) ∧
    (∀ tokens, asm.scan file source = .ok tokens →
      (∀ token ∈ tokens, token.kind = .number → token.Readable) ∧
      ∀ statements, asm.statements tokens = .ok statements →
        (∀ statement ∈ statements, asm.pseudos.expands statement = false ∧
          ∀ token ∈ statement.name :: statement.args, token.kind = .number → token.Readable) ∧
        ∀ layout, asm.layout statements = .ok layout → ∀ statement ∈ layout.statements,
          (statement.retained = true ∧ ∀ arg ∈ statement.args, arg.kind ≠ .identifier) ∧
          ∀ token ∈ statement.name :: statement.args, token.kind = .number → token.Readable) ∧
    ∃ zirc, Assembler.ofSet InstructionSet.zirc16 strict = .ok zirc ∧
      ∀ e, zirc.assemble file source = .error e → e.fault.kind ≠ .configuration := by
  obtain ⟨rfl, hcompiled⟩ := Assembler.of_ofSet set strict asm hasm
  refine ⟨?_, ?_, ?_⟩
  · intro e he
    have hfaulty := (Assembler.ends_assemble hcompiled).of_error he
    exact ⟨hfaulty.not_internal, hfaulty.overruns⟩
  · intro tokens htokens
    have hscanned := (Token.ends_scan asm.set.classOf? file source).of_ok htokens
    refine ⟨fun token hmem => (hscanned token hmem).number, ?_⟩
    intro statements hstatements
    have hsound := (Assembler.ends_statements hcompiled tokens htokens).of_ok hstatements
    constructor
    · intro statement hmem
      obtain ⟨hstatement, hexpanded⟩ := hsound statement hmem
      exact ⟨hexpanded, hstatement.numbers⟩
    intro layout hlayout statement hmem
    have hlaid := (Layout.ends_resolve _ _ statements fun statement hmem =>
      (hsound statement hmem).1).of_ok hlayout statement hmem
    exact ⟨⟨hlaid.retained, hlaid.no_reference⟩, hlaid.numbers⟩
  · -- a table of flat templates is expanded in one round
    obtain ⟨zirc, hzirc, hflat⟩ := Assembler.exists_flat_zirc16 strict
    refine ⟨zirc, hzirc, ?_⟩
    intro e he hkind
    obtain ⟨hset, hcompiled⟩ := Assembler.of_ofSet _ strict zirc hzirc
    have hfaulty := (Assembler.ends_assemble hcompiled).of_error he
    exact Assembler.not_overruns_of_flat hcompiled hflat e (hfaulty.overruns hkind)

/-- A set with a pseudo-instruction that stands for itself. -/
def selfCall : Definition where
  name := "self"
  width := 16
  formats := [("nop", "0000000000000000")]
  names := []
  pseudos := [⟨"again", "again", []⟩]
  branches := []
  terminals := []

def selfCall.set : InstructionSet :=
  ⟨"self", 16, [("nop", [.constant 16 0])], [], selfCall.pseudos, [], [], by decide +kernel⟩

/-- The set is to blame for an expansion without end. -/
theorem selfCall_overruns :
    ∃ set asm, InstructionSet.ofDefinition selfCall = .ok set ∧
      Assembler.ofSet set true = .ok asm ∧
      asm.assemble "self.asm" "nop\nagain".toList =
        .error ⟨⟨"self.asm", 2, 1⟩, .endlessExpansion "again" 16⟩ ∧
      asm.Overruns "self.asm" "nop\nagain".toList
        ⟨⟨"self.asm", 2, 1⟩, .endlessExpansion "again" 16⟩ := by
  have hset : InstructionSet.ofDefinition selfCall = .ok selfCall.set := by
    decide +kernel
  obtain ⟨asm, hasm, hrun⟩ := exists_ok_of_any (Assembler.ofSet selfCall.set true)
    (fun asm => asm.assemble "self.asm" "nop\nagain".toList =
      .error ⟨⟨"self.asm", 2, 1⟩, .endlessExpansion "again" 16⟩) (by decide +kernel)
  have hrun := of_decide_eq_true hrun
  obtain ⟨hfaults, -⟩ :=
    stages_meet_what_they_expect selfCall.set true asm hasm "self.asm" "nop\nagain".toList
  exact ⟨_, asm, hset, hasm, hrun, (hfaults _ hrun).2 rfl⟩

/-- Every fault stands at a character of the source. -/
theorem faults_point_into_source (set : InstructionSet) (strict : Bool) (asm : Assembler)
    (hasm : Assembler.ofSet set strict = .ok asm) (file : String) (source : List Char) (e : Error)
    (h : asm.assemble file source = .error e) : e.pos.PointsInto file source := by
  obtain ⟨rfl, hcompiled⟩ := Assembler.of_ofSet set strict asm hasm
  exact ((Assembler.ends_assemble hcompiled).of_error h).pos

/-- A set whose pseudo-instruction `outer` stands for a number that does not fit, two templates
away. -/
def nestedTemplates : Definition where
  name := "nested"
  width := 16
  formats := [("put", "\x7bIMM16\x7d")]
  names := []
  pseudos := [⟨"outer n", "inner n, 0x10000", []⟩, ⟨"inner m, n", "put m\nput n", []⟩]
  branches := []
  terminals := []

def nestedTemplates.set : InstructionSet :=
  ⟨"nested", 16, [("put", [.immediate 16])], [], nestedTemplates.pseudos, [], [],
    by decide +kernel⟩

/-- The number stands in a template, its fault at the call in the source. -/
theorem nestedTemplates_fault_at_call :
    ∃ set asm, InstructionSet.ofDefinition nestedTemplates = .ok set ∧
      Assembler.ofSet set true = .ok asm ∧
      asm.assemble "nested.asm" "put 1\n  outer 2".toList =
        .error ⟨⟨"nested.asm", 2, 3⟩, .numberTooBig 0x10000 16⟩ ∧
      Position.PointsInto "nested.asm" "put 1\n  outer 2".toList ⟨"nested.asm", 2, 3⟩ := by
  have hset : InstructionSet.ofDefinition nestedTemplates = .ok nestedTemplates.set := by
    decide +kernel
  obtain ⟨asm, hasm, hrun⟩ := exists_ok_of_any (Assembler.ofSet nestedTemplates.set true)
    (fun asm => asm.assemble "nested.asm" "put 1\n  outer 2".toList =
      .error ⟨⟨"nested.asm", 2, 3⟩, .numberTooBig 0x10000 16⟩) (by decide +kernel)
  have hrun := of_decide_eq_true hrun
  exact ⟨_, asm, hset, hasm, hrun, faults_point_into_source nestedTemplates.set true asm hasm
    "nested.asm" "put 1\n  outer 2".toList _ hrun⟩

end WordAsm
