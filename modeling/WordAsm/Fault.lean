import WordAsm.Diagnostic
import WordAsm.Token

/-! The faults of assembly, from scanning to the image, and of the pseudo-instruction templates,
which are scanned and parsed like source and so can hold a fault of their own. -/

namespace WordAsm

open WordAsm.Text

inductive Fault where
  | unexpectedCharacter (c : Char)
  | unterminatedString
  | unterminatedEscape
  | unknownEscape (c : Char)
  | missingDigits (mark : String)
  | invalidDigit (c : Char) (radix : Nat)
  | numberOutOfRange (literal : String)
  | expectedStatement (kind : Token.Kind) (text : String)
  | expectedComma (kind : Token.Kind) (text : String)
  | expectedArgument (kind : Token.Kind) (text : String)
  | missingArgument
  | wrongArity (mnemonic : String) (known : List Nat) (given : Nat)
  | duplicateLabel (name : String) (previous : Position)
  | undeclaredLabel (name : String)
  | originArity (given : Nat)
  | originNotNumber (kind : Token.Kind) (text : String)
  | originUnreadable (fault : Token.ValueFault)
  | unknownInstruction (name : String)
  | missingOperand (mnemonic : String) (cls : Class) (bit : Nat)
  | missingImmediate (mnemonic : String) (bit : Nat)
  | wrongOperand (mnemonic : String) (expected : Token.Kind) (bit : Nat) (kind : Token.Kind)
      (text : String)
  | unknownName (mnemonic : String) (cls : Class) (name : String)
  | unreadableNumber (mnemonic : String) (fault : Token.ValueFault)
  | numberTooBig (value : UInt64) (width : Nat)
  | unfitForData (mnemonic : String) (kind : Token.Kind) (text : String)
  | unfitForField (mnemonic : String) (kind : Token.Kind) (text : String)
  | labelInImage (name : String)
  | originInImage
  | unresolvedLabel (name : String)
  | wrongWordWidth (mnemonic : String) (width expected : Nat)
  | unreadableTemplate (name : String) (pos : Position) (fault : Fault)
  | signatureNotSingle (signature : String)
  | formalNotName (mnemonic : String) (text : String)
  | duplicateFormal (mnemonic : String) (name : String)
  | fieldHidesFormal (mnemonic : String) (name : String)
  | fieldOfUnknownFormal (mnemonic : String) (name : String) (param : String)
  | fieldOutsideWord (mnemonic : String) (name : String)
  | emptyTemplate (mnemonic : String)
  | labelInTemplate (mnemonic : String) (name : String)
  | shadowsInstruction (mnemonic : String)
  | duplicatePseudo (mnemonic : String) (arity : Nat)
  | endlessExpansion (mnemonic : String) (rounds : Nat)
  deriving DecidableEq, Repr

namespace Fault

def kind : Fault → FaultKind
  | unexpectedCharacter _ | unterminatedString | unterminatedEscape | unknownEscape _
  | missingDigits _ | invalidDigit .. | numberOutOfRange _ => .lexical
  | expectedStatement .. | expectedComma .. | expectedArgument .. | missingArgument
  | wrongArity .. => .grammatical
  | duplicateLabel .. | undeclaredLabel _ | originArity _ | originNotNumber .. | originUnreadable _
  | unknownInstruction _ | missingOperand .. | missingImmediate .. | wrongOperand ..
  | unknownName .. | unreadableNumber .. | numberTooBig .. | unfitForData .. | unfitForField .. =>
    .semantic
  | labelInImage _ | originInImage | unresolvedLabel _ | wrongWordWidth .. => .internal
  | unreadableTemplate .. | signatureNotSingle _ | formalNotName .. | duplicateFormal ..
  | fieldHidesFormal .. | fieldOfUnknownFormal .. | fieldOutsideWord .. | emptyTemplate _
  | labelInTemplate .. | shadowsInstruction _ | duplicatePseudo .. | endlessExpansion .. =>
    .configuration

/-- A token as messages name it: its kind and its quoted text. -/
def found (kind : Token.Kind) (text : String) : String :=
  kind.describe ++ " " ++ quoted text

def message : Fault → String
  | unexpectedCharacter c => "unexpected character " ++ quotedChar c
  | unterminatedString => "unterminated string"
  | unterminatedEscape => "unterminated escape"
  | unknownEscape c => "unknown escape \\" ++ c.toString
  | missingDigits mark => "missing digits after " ++ mark ++ " prefix"
  | invalidDigit c radix =>
    "invalid digit " ++ quotedChar c ++ " in base " ++ decimal radix ++ " literal"
  | numberOutOfRange literal => "number " ++ literal ++ " out of range"
  | expectedStatement kind text => "expected label or instruction, found " ++ found kind text
  | expectedComma kind text =>
    "expected ',' or end of line after argument, found " ++ found kind text
  | expectedArgument kind text => "expected argument, found " ++ found kind text
  | missingArgument => "missing argument after ','"
  | wrongArity mnemonic known given =>
    mnemonic ++ " takes " ++ " or ".intercalate (known.map decimal) ++ " argument(s), got "
      ++ decimal given
  | duplicateLabel name previous =>
    "label " ++ quoted name ++ " already defined at " ++ previous.render
  | undeclaredLabel name => "undeclared label " ++ quoted name
  | originArity given => "org takes exactly one argument, got " ++ decimal given
  | originNotNumber kind text => "org needs a number, got " ++ found kind text
  | originUnreadable fault => "bad org address: " ++ fault.message
  | unknownInstruction name => "unknown instruction " ++ quoted name
  | missingOperand mnemonic cls bit =>
    mnemonic ++ ": missing " ++ cls.describe ++ " operand at bit " ++ decimal bit
  | missingImmediate mnemonic bit =>
    mnemonic ++ ": missing immediate operand at bit " ++ decimal bit
  | wrongOperand mnemonic expected bit kind text =>
    mnemonic ++ ": expected " ++ expected.describe ++ " at bit " ++ decimal bit ++ ", got "
      ++ found kind text
  | unknownName mnemonic cls name =>
    mnemonic ++ ": unknown " ++ cls.describe ++ " " ++ quoted name
  | unreadableNumber mnemonic fault => mnemonic ++ ": " ++ fault.message
  | numberTooBig value width =>
    "number too big: " ++ decimal value.toNat ++ " does not fit in " ++ decimal width ++ " bits"
  | unfitForData mnemonic kind text => mnemonic ++ " cannot hold " ++ found kind text
  | unfitForField mnemonic kind text =>
    mnemonic ++ ": argument " ++ quoted text ++ " must be a number or a label, not a "
      ++ kind.describe
  | labelInImage name => "label " ++ quoted name ++ " reached code generation"
  | originInImage => "org directive reached code generation"
  | unresolvedLabel name => "unresolved label " ++ quoted name ++ " reached code generation"
  | wrongWordWidth mnemonic width expected =>
    mnemonic ++ ": encoded " ++ decimal width ++ " bits, want " ++ decimal expected
  | unreadableTemplate name pos fault =>
    "pseudo-instruction " ++ name ++ ": " ++ Diagnostic.render ⟨fault.kind, pos, fault.message⟩
  | signatureNotSingle signature =>
    "pseudo-instruction signature " ++ quoted signature ++ " must be a single instruction"
  | formalNotName mnemonic text =>
    mnemonic ++ ": formal " ++ quoted text ++ " is not a plain name"
  | duplicateFormal mnemonic name =>
    mnemonic ++ ": formal " ++ quoted name ++ " declared twice"
  | fieldHidesFormal mnemonic name =>
    mnemonic ++ ": field " ++ quoted name ++ " hides a formal"
  | fieldOfUnknownFormal mnemonic name param =>
    mnemonic ++ ": field " ++ quoted name ++ " selects from unknown formal " ++ quoted param
  | fieldOutsideWord mnemonic name =>
    mnemonic ++ ": field " ++ quoted name ++ " selects bits outside a 64-bit value"
  | emptyTemplate mnemonic => mnemonic ++ ": empty template"
  | labelInTemplate mnemonic name =>
    mnemonic ++ ": label " ++ quoted name ++ " in template"
  | shadowsInstruction mnemonic =>
    "pseudo-instruction " ++ mnemonic ++ " shadows a real instruction"
  | duplicatePseudo mnemonic arity =>
    "pseudo-instruction " ++ mnemonic ++ " defined twice with " ++ decimal arity ++ " arguments"
  | endlessExpansion mnemonic rounds =>
    "pseudo-instruction " ++ mnemonic ++ " still expanding after " ++ decimal rounds ++ " rounds"

end Fault

/-- A fault and where it was found. -/
structure Error where
  pos : Position
  fault : Fault
  deriving DecidableEq, Repr

def Error.diagnostic (e : Error) : Diagnostic :=
  ⟨e.fault.kind, e.pos, e.fault.message⟩

def Error.render (e : Error) : String :=
  e.diagnostic.render

end WordAsm
