import WordAsm.Command.Assemble
import WordAsm.Command.Disassemble

/-! Command lines. Options may stand anywhere; the other words are taken in order. -/

namespace WordAsm.Command

inductive Request where
  | assemble (options : Assemble.Options)
  | disassemble (options : Disassemble.Options)
  deriving DecidableEq, Repr

/-- Reads the words behind `asm` into options that have been filled in so far. -/
def readAssemble (options : Assemble.Options) : List String → Option Assemble.Options
  | [] => if options.isa = "" ∨ options.input = "" then none else some options
  | word :: rest =>
    if word = "-v" ∨ word = "--verbose" then readAssemble { options with verbose := true } rest
    else if word = "-s" ∨ word = "--strict" then readAssemble { options with strict := true } rest
    else if word = "-l" ∨ word = "--labels" then readAssemble { options with labels := true } rest
    else if options.isa = "" then readAssemble { options with isa := word } rest
    else if options.input = "" then readAssemble { options with input := word } rest
    else if options.output = "" then readAssemble { options with output := word } rest
    else none

/-- Reads the words behind `dis` into options that have been filled in so far. -/
def readDisassemble (options : Disassemble.Options) : List String → Option Disassemble.Options
  | [] => if options.input = "" then none else some options
  | "--isa" :: name :: rest => readDisassemble { options with isa := name } rest
  | "--origin" :: text :: rest =>
    match Text.readSigned? text.toList with
    | some origin => readDisassemble { options with origin } rest
    | none => none
  | word :: rest =>
    if word = "-v" ∨ word = "--verbose" then readDisassemble { options with verbose := true } rest
    else if options.input = "" then readDisassemble { options with input := word } rest
    else if options.output = "" then readDisassemble { options with output := word } rest
    else none

/-- What a command line asks for; `preset` names the instruction set to disassemble for when the
command line does not. -/
def Request.ofWords (preset : String) : List String → Option Request
  | "asm" :: words => (readAssemble ⟨"", "", "", false, false, false⟩ words).map .assemble
  | "dis" :: words => (readDisassemble ⟨"", preset, 0, "", "", false⟩ words).map .disassemble
  | _ => none

end WordAsm.Command
