import WordAsm.Text.Numeral

/-! What a command leaves behind: what it printed, and whether it succeeded. -/

namespace WordAsm

structure Outcome where
  success : Bool
  stdout : String
  /-- Lines for the error stream. -/
  stderr : List String
  deriving DecidableEq, Repr

namespace Outcome

def exitCode (outcome : Outcome) : Nat :=
  if outcome.success then 0 else 1

/-- A line in bright green. -/
def highlight (text : String) : String :=
  "\x1b[32;1m" ++ text ++ "\x1b[0m\n"

/-- A number of bytes; from a kibibyte on in whole kibibytes. -/
def byteSize (n : Nat) : String :=
  if n < 1024 then Text.decimal n ++ "B" else Text.decimal (n / 1024) ++ " kiB"

end Outcome

/-- How the commands are called. -/
def Command.usage : String :=
  "usage: asm [-v] [-s] [-l] ISA INPUT [OUTPUT]\n"
    ++ "       dis [-v] [--isa NAME] [--origin N] INPUT [OUTPUT]"

end WordAsm
