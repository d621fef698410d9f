import WordAsm.Fault
import WordAsm.Statement

/-! The grammar of statements. A label may share its line with what follows it; an instruction is
the last thing on its line, and commas part its arguments. -/

namespace WordAsm

namespace Token

def isBreak (token : Token) : Bool :=
  token.kind == .lineBreak

def isColon (token : Token) : Bool :=
  token.kind == .punctuation && token.text == ":"

def isComma (token : Token) : Bool :=
  token.kind == .punctuation && token.text == ","

/-- A token that can stand as an argument. -/
def isArgument (token : Token) : Bool :=
  match token.kind with
  | .number | .identifier | .register | .condition | .specialRegister | .string => true
  | .punctuation | .lineBreak | .other _ => false

end Token

namespace Statement

/-- The fault of a token that cannot stand where an argument has to. -/
def notArgument (token : Token) : Error :=
  ⟨token.pos, .expectedArgument token.kind token.text⟩

mutual

/-- Parses from the start of a statement. -/
def parse : List Token → Except Error (List Statement)
  | [] => .ok []
  | token :: rest =>
    if token.isBreak then parse rest
    else if token.kind ≠ .identifier then
      .error ⟨token.pos, .expectedStatement token.kind token.text⟩
    else match rest with
      | [] => .ok [unplaced .instruction token []]
      | next :: rest =>
        if next.isColon then do
          let statements ← parse rest
          return unplaced .label token [] :: statements
        else if next.isBreak then do
          let statements ← parse rest
          return unplaced .instruction token [] :: statements
        else if next.isArgument then parseArgs token [next] rest
        else .error (notArgument next)

/-- Parses behind an argument of the instruction `name`. -/
def parseArgs (name : Token) (args : List Token) : List Token → Except Error (List Statement)
  | [] => .ok [unplaced .instruction name args]
  | token :: rest =>
    if token.isBreak then do
      let statements ← parse rest
      return unplaced .instruction name args :: statements
    else if !token.isComma then .error ⟨token.pos, .expectedComma token.kind token.text⟩
    else match rest with
      | [] => .error ⟨token.pos, .missingArgument⟩
      | next :: rest =>
        if next.isBreak then .error ⟨token.pos, .missingArgument⟩
        else if next.isArgument then parseArgs name (args ++ [next]) rest
        else .error (notArgument next)

end

end Statement

end WordAsm
