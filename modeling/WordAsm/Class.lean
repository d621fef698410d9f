import WordAsm.Text.Numeral

/-! Classes of named operand values. Formats have slots for the first three; a definition may
carry tables of further classes. -/

namespace WordAsm

inductive Class where
  | register
  | condition
  | special
  | other (code : Int)
  deriving DecidableEq, Repr

namespace Class

def ofCode (code : Int) : Class :=
  if code = 0 then register else if code = 1 then condition else if code = 2 then special
  else other code

def code : Class → Int
  | register => 0
  | condition => 1
  | special => 2
  | other code => code

def describe : Class → String
  | register => "register"
  | condition => "condition"
  | special => "special register"
  | other code => "Class(" ++ Text.signed code ++ ")"

/-- The letter of the class in a slot. A class without slots has none to write. -/
def letter : Class → Char
  | register => 'R'
  | condition => 'C'
  | special => 'S'
  | other _ => Char.ofNat 0

end Class

end WordAsm
