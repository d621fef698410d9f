import WordAsm.Command.Directory
import WordAsm.Command.Outcome
import WordAsm.InstructionSet.Builtin
import WordAsm.Listing
import WordAsm.Text.Utf8

/-! The command that disassembles a file, to the standard output or to a file. -/

namespace WordAsm.Command.Disassemble

open WordAsm.Text

structure Options where
  /-- The name of the instruction set; empty when none is given. -/
  isa : String
  /-- The name to use when none is given; empty for the built-in choice. -/
  preset : String
  origin : Int
  input : String
  /-- Empty for the standard output. -/
  output : String
  verbose : Bool
  deriving DecidableEq, Repr

/-- The name of the instruction set. -/
def isaName (options : Options) : String :=
  if options.isa ≠ "" then options.isa
  else if options.preset ≠ "" then options.preset
  else "zirc16"

/-- A listing, and what has been printed by then. -/
structure Job where
  text : String
  stderr : List String
  deriving DecidableEq, Repr

def fail (line : String) : Except Outcome Job :=
  .error ⟨false, "", [line]⟩

/-- Disassembles the contents of the input; `isFile` says that the input is a file. -/
def prepare (options : Options) (isFile : Bool) (contents : Except AccessFault (List UInt8)) :
    Except Outcome Job :=
  if !isFile then
    fail ("Error reading input file: " ++ options.input ++ " does not exist")
  else match InstructionSet.builtin? (isaName options) with
    | none => fail ("Error: unknown instruction set " ++ quoted (isaName options))
    | some set =>
      if options.origin < 0 then fail ("Error: negative origin " ++ signed options.origin)
      else match contents with
        | .error access => fail ("Error reading input file: " ++ access.message)
        | .ok code =>
          let trace := if options.verbose then
            ["disassembling " ++ Outcome.byteSize code.length ++ " of " ++ set.name
              ++ " code from " ++ options.input] else []
          .ok ⟨disassemble set (UInt64.ofNat options.origin.toNat) code, trace⟩

/-- Ends the command when the listing goes to the standard output. -/
def display (job : Job) : Outcome :=
  ⟨true, job.text, job.stderr⟩

/-- Ends the command when writing the listing has succeeded or failed. -/
def finish (options : Options) (job : Job) : Option AccessFault → Outcome
  | some access => ⟨false, "", job.stderr ++ ["Error writing output file: " ++ access.message]⟩
  | none =>
    ⟨true, Outcome.highlight ("Disassembly written to " ++ options.output), job.stderr⟩

/-- Runs the command in a directory. -/
def run (options : Options) (dir : Directory) (site : Site := .isolated) : Outcome × Directory :=
  match prepare options (dir.hasFile site options.input) (dir.read site options.input) with
  | .error outcome => (outcome, dir)
  | .ok job =>
    if options.output = "" then (display job, dir)
    else
      let (after, fault) := dir.write site options.output (encode job.text.toList)
      (finish options job fault, after)

end WordAsm.Command.Disassemble
