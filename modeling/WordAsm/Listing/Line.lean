import WordAsm.Text.Numeral

/-! Lines of a listing. A mnemonic is padded to eight columns before its operands, addresses have
at least four hexadecimal digits, and a string is written so that it is read back unchanged. -/

namespace WordAsm.Listing

open WordAsm.Text

/-- An operand as it is listed. -/
inductive Operand where
  | name (text : String)
  | number (value : UInt64)
  /-- The label of the cell at an address. -/
  | label (address : UInt64)
  deriving DecidableEq, Repr

inductive Line where
  | origin (address : UInt64)
  | label (address : UInt64)
  | code (mnemonic : String) (operands : List Operand)
  | words (values : List UInt16)
  /-- A string of characters, one a word, and whether a zero word ends it. -/
  | string (index : Nat) (text : List UInt16) (terminated : Bool)
  | byte (value : UInt8)
  deriving DecidableEq, Repr

/-- Pads a text with blanks to eight columns. -/
def column (text : String) : String :=
  String.ofList (text.toList.rightpad 8 ' ')

def labelName (address : UInt64) : String :=
  "loc_" ++ capitalHex 4 address.toNat

def Operand.render : Operand → String
  | name text => text
  | number value => decimal value.toNat
  | label address => labelName address

/-- A string literal of characters that each fit a byte. -/
def literal (text : List UInt16) : String :=
  let escape (word : UInt16) : List Char :=
    let c := Char.ofNat (word.toNat % 256)
    if c = '"' ∨ c = '\\' then ['\\', c] else [c]
  "\"" ++ String.ofList (text.flatMap escape) ++ "\""

def Line.render : Line → String
  | origin address => "    " ++ column "org" ++ " 0x" ++ hex 4 address.toNat ++ "\n"
  | label address => labelName address ++ ":\n"
  | code mnemonic operands =>
    let text := ", ".intercalate (operands.map Operand.render)
    if text = "" then "    " ++ mnemonic ++ "\n"
    else "    " ++ column mnemonic ++ " " ++ text ++ "\n"
  | words values =>
    let text := ", ".intercalate (values.map fun value => "0x" ++ hex 4 value.toNat)
    "    " ++ column "dw" ++ " " ++ text ++ "\n"
  | string index text terminated =>
    column ("string" ++ decimal index ++ ":") ++ " " ++ column "dw" ++ " " ++ literal text
      ++ (if terminated then ", 0" else "") ++ "\n"
  | byte value => "    " ++ column "db" ++ " 0x" ++ hex 2 value.toNat ++ "\n"

end WordAsm.Listing
