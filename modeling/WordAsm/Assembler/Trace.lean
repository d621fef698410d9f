import WordAsm.Assembler

/-! Traces of assembly: what each stage that is reached has to say. -/

namespace WordAsm.Assembler

open WordAsm.Text

/-- A label definition that takes the place of an earlier one. -/
def redefinitionLine (name : Token) (previous : Position) : String :=
  name.pos.render ++ ": label " ++ quoted name.text ++ " redefined, previous definition at "
    ++ previous.render

/-- A statement behind its address. -/
def statementLine (statement : Statement) : String :=
  hex 4 statement.address.toNat ++ "  " ++ statement.render

/-- The trace from layout on. -/
def traceLayout (asm : Assembler) (file : String) (statements : List Statement) : List String :=
  match asm.layout statements with
  | .error _ => []
  | .ok layout =>
    (file ++ ": " ++ decimal layout.labels.length ++ " labels")
      :: match Image.generate asm.set layout.statements with
        | .error _ => []
        | .ok _ => layout.statements.map statementLine

/-- The trace from parsing on. -/
def traceStatements (asm : Assembler) (file : String) (tokens : List Token) : List String :=
  match asm.statements tokens with
  | .error _ => []
  | .ok statements =>
    let redefinitions := if asm.strict then [] else Layout.redefinitions [] statements
    (file ++ ": " ++ decimal statements.length ++ " statements after expansion")
      :: redefinitions.map (fun (name, previous) => redefinitionLine name previous)
      ++ asm.traceLayout file statements

/-- The trace of the assembly of a source. -/
def trace (asm : Assembler) (file : String) (source : List Char) : List String :=
  match asm.scan file source with
  | .error _ => []
  | .ok tokens =>
    (file ++ ": " ++ decimal tokens.length ++ " units") :: asm.traceStatements file tokens

end WordAsm.Assembler
