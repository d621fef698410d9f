import WordAsm.BitField
import WordAsm.Format
import WordAsm.NameMap
import WordAsm.Sorted
import WordAsm.Text.Lower

/-! Instruction sets: formats by mnemonic, values by name and class, the texts of the
pseudo-instructions, and what a disassembler has to know of control flow. Names and mnemonics are
kept in lower case and may be asked for in any. A set holds the proof that its tables are in order,
so there is no set to which the rules do not apply. -/

namespace WordAsm

open WordAsm.Text

structure NamedValue where
  name : String
  cls : Class
  value : UInt64
  deriving DecidableEq, Repr

/-- The text of a pseudo-instruction: its name and formals, the statements that it stands for, and
the names that stand for bit fields of a formal. -/
structure PseudoText where
  signature : String
  body : String
  fields : NameMap BitField
  deriving DecidableEq, Repr

/-- What the tables of an instruction set keep to: instructions take whole words, names and
mnemonics are in lower case and occur once, and every format has the width of the set and consists
of well-formed parts. -/
structure InstructionSet.Rules (width : Nat) (formats : NameMap Format) (names : List NamedValue) :
    Prop where
  width_pos : 0 < width
  width_mod : width % 16 = 0
  width_le : width ≤ 64
  name_lower : ∀ entry ∈ names, lower entry.name = entry.name
  names_nodup : (names.map NamedValue.name).Nodup
  mnemonic_lower : ∀ entry ∈ formats, lower entry.1 = entry.1
  mnemonics_nodup : formats.names.Nodup
  format_width : ∀ entry ∈ formats, Format.width entry.2 = width
  format_wellFormed : ∀ entry ∈ formats, Format.WellFormed entry.2

instance (width : Nat) (formats : NameMap Format) (names : List NamedValue) :
    Decidable (InstructionSet.Rules width formats names) :=
  decidable_of_iff ((0 < width ∧ width % 16 = 0 ∧ width ≤ 64) ∧
    ((∀ entry ∈ names, lower entry.name = entry.name) ∧ (names.map NamedValue.name).Nodup) ∧
    (∀ entry ∈ formats, lower entry.1 = entry.1) ∧ formats.names.Nodup ∧
    (∀ entry ∈ formats, Format.width entry.2 = width) ∧
    ∀ entry ∈ formats, Format.WellFormed entry.2)
    ⟨fun h => ⟨h.1.1, h.1.2.1, h.1.2.2, h.2.1.1, h.2.1.2, h.2.2.1, h.2.2.2.1, h.2.2.2.2.1,
        h.2.2.2.2.2⟩,
      fun h => ⟨⟨h.width_pos, h.width_mod, h.width_le⟩, ⟨h.name_lower, h.names_nodup⟩,
        h.mnemonic_lower, h.mnemonics_nodup, h.format_width, h.format_wellFormed⟩⟩

structure InstructionSet where
  name : String
  /-- The bits of every instruction. -/
  width : Nat
  formats : NameMap Format
  names : List NamedValue
  pseudos : List PseudoText
  /-- Mnemonics whose immediate is the address of a jump. -/
  branches : List String
  /-- Mnemonics that the next instruction is never reached from. -/
  terminals : List String
  valid : InstructionSet.Rules width formats names
  deriving DecidableEq, Repr

namespace InstructionSet

def format? (set : InstructionSet) (mnemonic : String) : Option Format :=
  set.formats.get? (lower mnemonic)

def mnemonics (set : InstructionSet) : List String :=
  sortTexts set.formats.names

def classOf? (set : InstructionSet) (word : String) : Option Class :=
  (set.names.find? fun entry => entry.name = lower word).map NamedValue.cls

def value? (set : InstructionSet) (cls : Class) (name : String) : Option UInt64 :=
  (set.names.find? fun entry => entry.cls = cls ∧ entry.name = lower name).map NamedValue.value

/-- The name of a value; of several the least. -/
def nameOf? (set : InstructionSet) (cls : Class) (value : UInt64) : Option String :=
  least? ((set.names.filter fun entry => entry.cls = cls ∧ entry.value = value).map NamedValue.name)

def isBranch (set : InstructionSet) (mnemonic : String) : Bool :=
  set.branches.contains mnemonic

def isTerminal (set : InstructionSet) (mnemonic : String) : Bool :=
  set.terminals.contains mnemonic

end InstructionSet

end WordAsm
