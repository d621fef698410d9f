import WordAsm.Text.Numeral
import WordAsm.Text.Printable
import WordAsm.Text.Utf8

/-! Quoted texts, as messages show them. A quote of the same kind and a backslash are escaped, and
so is every character that is not printable; a byte that belongs to no character is shown in
hexadecimal. -/

namespace WordAsm.Text

/-- The letter that follows the backslash in the short escape of a control character. -/
def escapeLetter? (c : Char) : Option Char :=
  match c.toNat with
  | 0x07 => some 'a'
  | 0x08 => some 'b'
  | 0x09 => some 't'
  | 0x0a => some 'n'
  | 0x0b => some 'v'
  | 0x0c => some 'f'
  | 0x0d => some 'r'
  | _ => none

def escaped (quote c : Char) : String :=
  if c = quote ∨ c = '\\' then "\\" ++ c.toString
  else if isPrintable c then c.toString
  else match escapeLetter? c with
    | some letter => "\\" ++ letter.toString
    | none =>
      if c.toNat < 0x80 then "\\x" ++ hex 2 c.toNat
      else if c.toNat < 0x10000 then "\\u" ++ hex 4 c.toNat
      else "\\U" ++ hex 8 c.toNat

def escapedPiece (quote : Char) : Piece → String
  | .char c => escaped quote c
  | .stray byte => "\\x" ++ hex 2 byte.toNat

/-- A text between double quotes. -/
def quoted (text : String) : String :=
  "\"" ++ String.join (text.toList.map (escaped '"')) ++ "\""

/-- A byte sequence between double quotes. -/
def quotedPieces (text : List Piece) : String :=
  "\"" ++ String.join (text.map (escapedPiece '"')) ++ "\""

/-- A character between single quotes. -/
def quotedChar (c : Char) : String :=
  "'" ++ escaped '\x27' c ++ "'"

def NumeralFault.reason : NumeralFault → String
  | .malformed => "invalid syntax"
  | .outOfRange => "value out of range"
  | .unusableBase base => "invalid base " ++ signed base

/-- What is wrong with a numeral that cannot be read. -/
def NumeralFault.message (fault : NumeralFault) (text : String) : String :=
  "strconv.ParseUint: parsing " ++ quoted text ++ ": " ++ fault.reason

end WordAsm.Text
