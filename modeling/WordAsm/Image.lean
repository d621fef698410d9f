import WordAsm.Check
import WordAsm.Directive
import WordAsm.Fault
import WordAsm.InstructionSet

/-! Images: the bytes of a laid out program. An instruction gives its arguments to the slots of
its format in order and ignores those left over; a value that its slot cannot hold is a fault. A
data directive cuts values down to its slots instead. -/

namespace WordAsm.Image

/-- The value has to fit its slot. -/
def checkFits (arg : Token) (value : UInt64) (width : Nat) : Except Error UInt64 :=
  if Word.fits value width then .ok value else .error ⟨arg.pos, .numberTooBig value width⟩

/-- The value of an argument in a typed slot. -/
def namedOperand (set : InstructionSet) (mnemonic : String) (cls : Class) (width bit : Nat)
    (arg : Token) : Except Error UInt64 :=
  if arg.kind ≠ .ofClass cls then
    .error ⟨arg.pos, .wrongOperand mnemonic (.ofClass cls) bit arg.kind arg.text⟩
  else match set.value? cls arg.text with
    | none => .error ⟨arg.pos, .unknownName mnemonic cls arg.text⟩
    | some value => checkFits arg value width

/-- The value of an argument in a slot for a number. -/
def numericOperand (mnemonic : String) (width bit : Nat) (arg : Token) : Except Error UInt64 :=
  match arg.kind with
  | .number =>
    match arg.value with
    | .ok value => checkFits arg value width
    | .error fault => .error ⟨arg.pos, .unreadableNumber mnemonic fault⟩
  | .identifier => .error ⟨arg.pos, .unresolvedLabel arg.text⟩
  | kind => .error ⟨arg.pos, .wrongOperand mnemonic .number bit kind arg.text⟩

/-- The values of the parts of a format from the one at `bit` on, for the arguments left. -/
def partValues (set : InstructionSet) (mnemonic : String) (pos : Position) :
    (bit : Nat) → Format → List Token → Except Error (List UInt64)
  | _, [], _ => .ok []
  | bit, .constant width bits :: rest, args => do
    let values ← partValues set mnemonic pos (bit + width) rest args
    return bits :: values
  | bit, .typed cls _ :: _, [] => .error ⟨pos, .missingOperand mnemonic cls bit⟩
  | bit, .typed cls width :: rest, arg :: args => do
    let value ← namedOperand set mnemonic cls width bit arg
    let values ← partValues set mnemonic pos (bit + width) rest args
    return value :: values
  | bit, .immediate _ :: _, [] => .error ⟨pos, .missingImmediate mnemonic bit⟩
  | bit, .immediate width :: rest, arg :: args => do
    let value ← numericOperand mnemonic width bit arg
    let values ← partValues set mnemonic pos (bit + width) rest args
    return value :: values
  | bit, .extra width :: rest, [] => do
    let values ← partValues set mnemonic pos (bit + width) rest []
    return 0 :: values
  | bit, .extra width :: rest, arg :: args => do
    let value ← numericOperand mnemonic width bit arg
    let values ← partValues set mnemonic pos (bit + width) rest args
    return value :: values

/-- Puts the values of the parts behind the word packed so far. -/
def pack : (word : UInt64) → Format → List UInt64 → UInt64
  | word, part :: parts, value :: values =>
    pack (Word.shl word part.width ||| value) parts values
  | word, _, _ => word

/-- The word of an instruction. -/
def instructionWord (set : InstructionSet) (statement : Statement) : Except Error UInt64 :=
  match set.format? statement.mnemonic with
  | none => .error ⟨statement.name.pos, .unknownInstruction statement.name.text⟩
  | some format => do
    let values ← partValues set statement.mnemonic statement.name.pos 0 format statement.args
    require (format.width = set.width)
      ⟨statement.name.pos, .wrongWordWidth statement.mnemonic format.width set.width⟩
    return pack 0 format values

def instructionBytes (set : InstructionSet) (statement : Statement) :
    Except Error (List UInt8) := do
  let word ← instructionWord set statement
  return Word.encode set.width word

/-- The values that an argument of a data directive puts into its slots. -/
def slotValues (mnemonic : String) (arg : Token) : Except Error (List UInt64) :=
  match arg.kind with
  | .number =>
    match arg.value with
    | .ok value => .ok [value]
    | .error fault => .error ⟨arg.pos, .unreadableNumber mnemonic fault⟩
  | .string => .ok (arg.text.toList.map fun c => UInt64.ofNat c.toNat)
  | .identifier => .error ⟨arg.pos, .unresolvedLabel arg.text⟩
  | kind => .error ⟨arg.pos, .unfitForData mnemonic kind arg.text⟩

/-- The bytes of a data directive. Values are cut down to its slots before they are written. -/
def dataBytes (slotSize : Nat) (statement : Statement) : Except Error (List UInt8) := do
  let values ← statement.args.mapM (slotValues statement.mnemonic)
  let mask := Word.shr (~~~0) (64 - 8 * slotSize)
  return values.flatten.flatMap fun value => Word.toBytes slotSize (value &&& mask)

/-- The bytes of a statement. -/
def statementBytes (set : InstructionSet) (statement : Statement) : Except Error (List UInt8) :=
  if statement.kind = .label then
    .error ⟨statement.name.pos, .labelInImage statement.name.text⟩
  else if Directive.isOrigin statement.mnemonic then
    .error ⟨statement.name.pos, .originInImage⟩
  else match Directive.slotSize? statement.mnemonic with
    | some slotSize => dataBytes slotSize statement
    | none => instructionBytes set statement

/-- The image of a laid out program. -/
def generate (set : InstructionSet) (statements : List Statement) : Except Error (List UInt8) := do
  let blocks ← statements.mapM (statementBytes set)
  return blocks.flatten

end WordAsm.Image
