import WordAsm.Command.Arguments

/-! The program: runs the commands on the files of the system. -/

namespace WordAsm.Program

open WordAsm.Command

/-- Why the system refused a path. Some faults share their kind with others and are told by their
number. -/
def faultOf : IO.Error → PathFault
  | .noFileOrDirectory .. => .missing
  | .inappropriateType _ code _ => if code = 20 then .notDirectory else .isDirectory
  | .invalidArgument _ code details => if code = 36 then .tooLong else .refused details
  | .resourceExhausted _ code details => if code = 28 then .noRoom else .refused details
  | e => .refused (toString e)

def readFile (path : String) : IO (Except AccessFault (List UInt8)) := do
  try
    let handle ← IO.FS.Handle.mk path .read
    let contents ← handle.readBinToEnd
    return .ok contents.toList
  catch e =>
    let fault := faultOf e
    return .error ⟨if fault = .isDirectory then "read" else "open", path, fault⟩

/-- Makes or empties a file. -/
def openFile (path : String) : IO (Except AccessFault IO.FS.Handle) := do
  try
    return .ok (← IO.FS.Handle.mk path .write)
  catch e => return .error ⟨"open", path, faultOf e⟩

def writeFile (path : String) (contents : List UInt8) : IO (Option AccessFault) := do
  match ← openFile path with
  | .error access => return some access
  | .ok handle =>
    try
      handle.write ⟨contents.toArray⟩
      handle.flush
      return none
    catch e => return some ⟨"write", path, faultOf e⟩

/-- Prints what a command has to say and gives its exit code. -/
def report (outcome : Outcome) : IO UInt32 := do
  for line in outcome.stderr do
    IO.eprintln line
  IO.print outcome.stdout
  return outcome.exitCode.toUInt32

def assembleFile (options : Assemble.Options) : IO UInt32 := do
  match Assemble.prepare options (← readFile options.input) with
  | .error outcome => report outcome
  | .ok job => report (Assemble.finish options job (← writeFile job.path job.code))

def disassembleFile (options : Disassemble.Options) : IO UInt32 := do
  let contents ← readFile options.input
  let isFile := match contents with
    | .ok _ | .error ⟨_, _, .refused _⟩ => true
    | .error _ => false
  match Disassemble.prepare options isFile contents with
  | .error outcome => report outcome
  | .ok job =>
    if options.output = "" then report (Disassemble.display job)
    else
      let fault ← writeFile options.output (Text.encode job.text.toList)
      report (Disassemble.finish options job fault)

end WordAsm.Program

def main (args : List String) : IO UInt32 := do
  let preset := (← IO.getEnv "ZIRC_ISA").getD ""
  match WordAsm.Command.Request.ofWords preset args with
  | some (.assemble options) => WordAsm.Program.assembleFile options
  | some (.disassemble options) => WordAsm.Program.disassembleFile options
  | none =>
    IO.eprintln WordAsm.Command.usage
    return 1
