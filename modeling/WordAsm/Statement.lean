import WordAsm.Text.Lower
import WordAsm.Token

/-! Statements: label definitions and instructions, directives and pseudo-instructions included. -/

namespace WordAsm

namespace Statement

inductive Kind where
  | instruction
  | label
  | other (code : Int)
  deriving DecidableEq, Repr

namespace Kind

def ofCode (code : Int) : Kind :=
  if code = 0 then instruction else if code = 1 then label else other code

def code : Kind → Int
  | instruction => 0
  | label => 1
  | other code => code

end Kind

end Statement

structure Statement where
  kind : Statement.Kind
  /-- The name of a label, or a mnemonic. -/
  name : Token
  args : List Token
  /-- Where the statement is placed, in words of sixteen bits. -/
  address : UInt64
  /-- How much of the image it takes, in bytes. -/
  size : UInt64
  deriving DecidableEq, Repr

namespace Statement

/-- A statement that has no place yet. -/
def unplaced (kind : Kind) (name : Token) (args : List Token) : Statement :=
  ⟨kind, name, args, 0, 0⟩

def mnemonic (statement : Statement) : String :=
  Text.lower statement.name.text

def render (statement : Statement) : String :=
  if statement.kind = .label then statement.name.text ++ ":"
  else if statement.args.isEmpty then statement.mnemonic
  else statement.mnemonic ++ " " ++ ", ".intercalate (statement.args.map Token.render)

end Statement

end WordAsm
