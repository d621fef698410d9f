import WordAsm.Assembler.Trace
import WordAsm.Command.Directory
import WordAsm.Command.Outcome
import WordAsm.InstructionSet.Builtin
import WordAsm.Text.Utf8

/-! The command that assembles a file. The image goes to the path given, or to that of the input
with its extension replaced by the name of the instruction set; a path that would overwrite the
input is refused. Both the set and the input have to be named. Nothing is written unless everything
before has succeeded. -/

namespace WordAsm.Command.Assemble

open WordAsm.Text

structure Options where
  isa : String
  input : String
  /-- Empty when it is to be derived from the input. -/
  output : String
  strict : Bool
  labels : Bool
  verbose : Bool
  deriving DecidableEq, Repr

/-- The path of the image, and whether it is that of the input. -/
def outputPath (options : Options) : String × Bool :=
  let name := Path.base options.input
  let extension := Path.extension name
  let stem := if extension = name then options.input else Path.dropEnding options.input extension
  let path := if options.output = "" then stem ++ "." ++ lower options.isa else options.output
  (path, Path.clean path == Path.clean options.input)

/-- The labels of a program by address, then name. -/
def sortLabels (labels : NameMap UInt64) : NameMap UInt64 :=
  sortBy (fun a b => decide (a.2 < b.2 ∨ a.2 = b.2 ∧ a.1 ≤ b.1)) labels

def labelTable (labels : NameMap UInt64) : String :=
  String.join ((sortLabels labels).map fun (name, address) =>
    hex 4 address.toNat ++ "  " ++ name ++ "\n")

/-- An image that is ready to be written, and what has been printed by then. -/
structure Job where
  path : String
  code : List UInt8
  stdout : String
  stderr : List String
  deriving DecidableEq, Repr

/-- Ends the command with an error line. -/
def fail (stderr : List String) (line : String) : Except Outcome Job :=
  .error ⟨false, "", stderr ++ [line]⟩

/-- A trace line, if they are asked for. -/
def note (options : Options) (line : String) : List String :=
  if options.verbose then [line] else []

/-- The instruction set asked for, or the usual one with a note when that is unknown. -/
def chooseSet (options : Options) : InstructionSet × List String :=
  match InstructionSet.builtin? options.isa with
  | some set => (set, [])
  | none =>
    (.zirc16, note options ("no instruction set named " ++ quoted options.isa ++ ", using zirc16"))

/-- Assembles the contents of the input, as far as writing the image; `dump` is how the program is
printed beforehand, which is not at all unless that is asked for. -/
def prepare (options : Options) (contents : Except AccessFault (List UInt8))
    (dump : List Statement → String := fun _ => "") : Except Outcome Job :=
  let (set, trace) := chooseSet options
  let (path, overwrites) := outputPath options
  if options.isa = "" ∨ options.input = "" then fail [] usage
  else if overwrites then
    fail trace ("Error: output " ++ path ++ " would overwrite the input")
  else match contents with
    | .error access => fail trace ("Error reading input file: " ++ access.message)
    | .ok bytes =>
      let trace := trace
        ++ note options ("read " ++ Outcome.byteSize bytes.length ++ " from " ++ options.input)
      match Assembler.ofSet set options.strict with
      | .error e => fail trace e.render
      | .ok asm =>
        let source := decode bytes
        let trace := trace ++ if options.verbose then asm.trace options.input source else []
        match asm.assemble options.input source with
        | .error e => fail trace e.render
        | .ok program =>
          let table := if options.labels then labelTable program.layout.labels else ""
          .ok ⟨path, program.code, dump program.layout.statements ++ table, trace⟩

/-- Ends the command when writing the image has succeeded or failed. -/
def finish (options : Options) (job : Job) : Option AccessFault → Outcome
  | some access =>
    ⟨false, job.stdout, job.stderr ++ ["Error writing output file: " ++ access.message]⟩
  | none =>
    let size := job.code.length
    let trace := note options ("wrote " ++ Outcome.byteSize size ++ " to " ++ job.path)
    let line := "Assembled file: " ++ job.path ++ " (" ++ decimal size ++ " bytes)"
    ⟨true, job.stdout ++ Outcome.highlight line, job.stderr ++ trace⟩

/-- Runs the command in a directory. -/
def run (options : Options) (dir : Directory) (dump : List Statement → String := fun _ => "")
    (site : Site := .isolated) : Outcome × Directory :=
  match prepare options (dir.read site options.input) dump with
  | .error outcome => (outcome, dir)
  | .ok job =>
    let (after, fault) := dir.write site job.path job.code
    (finish options job fault, after)

end WordAsm.Command.Assemble
