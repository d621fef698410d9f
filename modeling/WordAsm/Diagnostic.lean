import WordAsm.Position

/-! Diagnostics: what kind of fault was found, where, and what is wrong. -/

namespace WordAsm

inductive FaultKind where
  /-- A bad character, digit or string literal. -/
  | lexical
  /-- A statement that has no production, or a pseudo-instruction with a wrong operand count. -/
  | grammatical
  /-- A well-formed statement that cannot be assembled. -/
  | semantic
  /-- A stage was given what an earlier stage removes. -/
  | internal
  /-- A defect of the instruction set or of its pseudo-instructions. -/
  | configuration
  | other (code : Int)
  deriving DecidableEq, Repr

namespace FaultKind

def ofCode (code : Int) : FaultKind :=
  if code = 0 then lexical else if code = 1 then grammatical else if code = 2 then semantic
  else if code = 3 then internal else if code = 4 then configuration else other code

def code : FaultKind → Int
  | lexical => 0
  | grammatical => 1
  | semantic => 2
  | internal => 3
  | configuration => 4
  | other code => code

def describe : FaultKind → String
  | lexical => "lex error"
  | grammatical => "syntax error"
  | semantic => "semantic error"
  | internal => "internal error"
  | configuration => "config error"
  | other code => "ErrorKind(" ++ Text.signed code ++ ")"

end FaultKind

structure Diagnostic where
  kind : FaultKind
  pos : Position
  message : String
  deriving DecidableEq, Repr

/-- The text of a diagnostic; it starts with the position if there is one. -/
def Diagnostic.render (d : Diagnostic) : String :=
  let text := d.kind.describe ++ ": " ++ d.message
  if d.pos.isValid then d.pos.render ++ ": " ++ text else text

end WordAsm
