import WordAsm.BitField
import WordAsm.Class
import WordAsm.Position
import WordAsm.Text.Quoted

/-! Tokens, the lexical units of assembly source. A number keeps its digits without their base
mark, a string what it stands for, and a label reference the bit fields that its address will be
reduced to. -/

namespace WordAsm

namespace Token

inductive Kind where
  | identifier
  | register
  | condition
  | specialRegister
  | punctuation
  | number
  | string
  | lineBreak
  | other (code : Int)
  deriving DecidableEq, Repr

namespace Kind

def ofCode (code : Int) : Kind :=
  if code = 0 then identifier else if code = 1 then register else if code = 2 then condition
  else if code = 3 then specialRegister else if code = 4 then punctuation
  else if code = 5 then number else if code = 6 then string else if code = 7 then lineBreak
  else other code

def code : Kind → Int
  | identifier => 0
  | register => 1
  | condition => 2
  | specialRegister => 3
  | punctuation => 4
  | number => 5
  | string => 6
  | lineBreak => 7
  | other code => code

def describe : Kind → String
  | identifier => "identifier"
  | register => "register"
  | condition => "condition"
  | specialRegister => "special register"
  | punctuation => "punctuation"
  | number => "number"
  | string => "string"
  | lineBreak => "line break"
  | other code => "Kind(" ++ Text.signed code ++ ")"

/-- The kind of a word that names a value of a class. -/
def ofClass : Class → Kind
  | .condition => condition
  | .special => specialRegister
  | .register | .other _ => register

end Kind

/-- Why a token has no value. -/
inductive ValueFault where
  | notNumber (kind : Kind) (text : String)
  | unreadable (text : String) (fault : Text.NumeralFault)
  deriving DecidableEq, Repr

def ValueFault.message : ValueFault → String
  | notNumber kind text => kind.describe ++ " " ++ Text.quoted text ++ " is not a number"
  | unreadable text fault => fault.message text

end Token

structure Token where
  text : String
  kind : Token.Kind
  /-- The base of a number, zero for any other kind. -/
  radix : Int
  pos : Position
  /-- Selections still to be made from the address of a label, innermost first. -/
  fields : List BitField
  deriving DecidableEq, Repr

namespace Token

/-- A token that is neither a number nor a reduced label reference. -/
def plain (kind : Kind) (text : String) (pos : Position) : Token :=
  ⟨text, kind, 0, pos, []⟩

/-- A number in base ten. -/
def ofValue (value : UInt64) (pos : Position) : Token :=
  ⟨Text.decimal value.toNat, .number, 10, pos, []⟩

def value (token : Token) : Except ValueFault UInt64 :=
  if token.kind = .number then
    match Text.readNumeral token.radix token.text.toList with
    | .ok value => .ok value
    | .error fault => .error (.unreadable token.text fault)
  else .error (.notNumber token.kind token.text)

def render (token : Token) : String :=
  match token.kind with
  | .number =>
    if token.radix = 16 then "0x" ++ token.text
    else if token.radix = 2 then "0b" ++ token.text
    else token.text
  | .string => Text.quoted token.text
  | .lineBreak => "\\n"
  | _ => token.text

end Token

end WordAsm
