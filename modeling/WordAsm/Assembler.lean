import WordAsm.Image
import WordAsm.Layout
import WordAsm.Pseudo.Expansion

/-! The assembler: from source text to an image, stage by stage. -/

namespace WordAsm

structure Assembler where
  set : InstructionSet
  pseudos : PseudoTable
  /-- A label that is defined twice is a fault. -/
  strict : Bool
  deriving DecidableEq, Repr

/-- What a source assembles to. -/
structure Program where
  code : List UInt8
  layout : Layout
  deriving DecidableEq, Repr

namespace Assembler

/-- The assembler for a set, if the pseudo-instructions of the set compile. -/
def ofSet (set : InstructionSet) (strict : Bool) : Except Error Assembler := do
  let pseudos ← PseudoTable.ofSet set
  return ⟨set, pseudos, strict⟩

/-- The tokens of a source. -/
def scan (asm : Assembler) (file : String) (source : List Char) : Except Error (List Token) :=
  Token.scan asm.set.classOf? file source

/-- Tokens parsed and expanded. -/
def statements (asm : Assembler) (tokens : List Token) : Except Error (List Statement) := do
  let parsed ← Statement.parse tokens
  asm.pseudos.expand parsed

def layout (asm : Assembler) (statements : List Statement) : Except Error Layout :=
  Layout.resolve asm.set.width asm.strict statements

def assemble (asm : Assembler) (file : String) (source : List Char) : Except Error Program := do
  let tokens ← asm.scan file source
  let statements ← asm.statements tokens
  let layout ← asm.layout statements
  let code ← Image.generate asm.set layout.statements
  return ⟨code, layout⟩

end Assembler

end WordAsm
