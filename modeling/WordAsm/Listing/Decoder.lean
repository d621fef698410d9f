import WordAsm.InstructionSet

/-! Decoding of instruction words. Of the formats whose constant bits a word has, and whose typed
fields all have a name in it, the one with the most constant bits is chosen, and of several such
the first by mnemonic. -/

namespace WordAsm

/-- A word read as an instruction: its slots have the values `fields`, in format order. -/
structure Decoded where
  mnemonic : String
  format : Format
  fields : List UInt64
  deriving DecidableEq, Repr

namespace Format

/-- The parts that take an operand. -/
def slots (format : Format) : List Part :=
  format.filter Part.isSlot

/-- How many bits of a word the format fixes. -/
def constantBits (format : Format) : Nat :=
  Word.bitCount format.pattern.mask

end Format

namespace Decoder

/-- The first entry has at least as many constant bits as the second. -/
def precedes (a b : String × Format) : Bool :=
  b.2.constantBits ≤ a.2.constantBits

/-- The formats of a set in the order of their mnemonics. -/
def entries (set : InstructionSet) : List (String × Format) :=
  set.mnemonics.map fun mnemonic => (mnemonic, (set.format? mnemonic).getD [])

/-- The formats of a set in the order in which they are tried: sorting by constant bits leaves those
that have as many in the order of their mnemonics. -/
def candidates (set : InstructionSet) : List (String × Format) :=
  sortBy precedes (entries set)

/-- Every typed slot holds a value that has a name. -/
def isNamed (set : InstructionSet) (format : Format) (fields : List UInt64) : Bool :=
  (format.slots.zip fields).all fun
    | (.typed cls _, value) => (set.nameOf? cls value).isSome
    | _ => true

/-- The word can be read in the format. -/
def accepts (set : InstructionSet) (format : Format) (word : UInt64) : Bool :=
  format.admits word && isNamed set format (format.fields word)

/-- Reads a word in the first format of a list that it can be read in. -/
def decodeIn (set : InstructionSet) (formats : List (String × Format)) (word : UInt64) :
    Option Decoded :=
  (formats.find? fun entry => accepts set entry.2 word).map fun (mnemonic, format) =>
    ⟨mnemonic, format, format.fields word⟩

def decode (set : InstructionSet) (word : UInt64) : Option Decoded :=
  decodeIn set (candidates set) word

end Decoder

end WordAsm
