import WordAsm.Statement

/-! Directives: `org` sets the address, and the data directives fill slots of one, two, four or
eight bytes, one for each number and one for each character of a string. -/

namespace WordAsm

namespace Directive

/-- The bytes in a slot of a data directive. -/
def slotSize? (mnemonic : String) : Option Nat :=
  if mnemonic = "db" then some 1
  else if mnemonic = "dw" then some 2
  else if mnemonic = "dd" then some 4
  else if mnemonic = "dq" then some 8
  else none

def isOrigin (mnemonic : String) : Bool :=
  mnemonic == "org"

def isDirective (mnemonic : String) : Bool :=
  (slotSize? mnemonic).isSome || isOrigin mnemonic

/-- How many slots an argument fills. -/
def slots (arg : Token) : Nat :=
  if arg.kind = .string then arg.text.length else 1

/-- The bytes that the arguments of a data directive fill. -/
def dataSize (slotSize : Nat) : List Token → Nat
  | [] => 0
  | arg :: args => slots arg * slotSize + dataSize slotSize args

end Directive

end WordAsm
