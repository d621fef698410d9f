import WordAsm.Format
import WordAsm.Text.Blank
import WordAsm.Text.Digit
import WordAsm.Text.Quoted

/-! Reading a format. The text is taken byte by byte: zeros and ones form constant runs, which
white space or a slot ends, and a slot reaches from an opening brace to the next closing one. A
slot names its type and then its width. -/

namespace WordAsm.Format

open WordAsm.Text

inductive Fault where
  | longRun
  | openSlot (offset : Nat)
  | malformedSlot (body : List Piece)
  | badWidth (body : List Piece)
  | unknownSlot (type : List Piece)
  | unexpected (byte : UInt8) (offset : Nat)
  | empty
  deriving DecidableEq, Repr

/-- What is wrong with the format `text`. -/
def Fault.message (text : List UInt8) : Fault → String
  | longRun => "constant run longer than 64 bits in " ++ whole
  | openSlot offset => "unterminated slot at offset " ++ decimal offset ++ " in " ++ whole
  | malformedSlot body => "malformed slot " ++ slot body ++ " in " ++ whole
  | badWidth body => "bad width in slot " ++ slot body ++ " in " ++ whole
  | unknownSlot type => "unknown slot type " ++ quotedPieces type ++ " in " ++ whole
  | unexpected byte offset =>
    "unexpected " ++ quotedChar (Char.ofNat byte.toNat) ++ " at offset " ++ decimal offset
      ++ " in " ++ whole
  | empty => "empty format"
where
  whole : String := quotedPieces (pieces text)
  slot (body : List Piece) : String := "\x7b" ++ String.ofList (body.map Piece.toChar) ++ "\x7d"

/-- The slot of a type; the type is written in ASCII letters. -/
def slotOf? (type : List Piece) (width : Nat) : Option Part :=
  if type = [.char 'R'] then some (.typed .register width)
  else if type = [.char 'C'] then some (.typed .condition width)
  else if type = [.char 'S'] then some (.typed .special width)
  else if type = [.char 'I', .char 'M', .char 'M'] then some (.immediate width)
  else if type = [.char 'E'] then some (.extra width)
  else none

/-- A width from one to 64 in ASCII digits, leading zeros allowed. -/
def slotWidth? (digits : List Char) : Option Nat :=
  match readDigits 10 0 digits with
  | .ok width => if 1 ≤ width ∧ width ≤ 64 then some width else none
  | .error _ => none

/-- The width of a slot begins at its first digit, of whatever script. -/
def startsWidth : Piece → Bool
  | .char c => isDigit c
  | .stray _ => false

/-- Reads what stands between the braces of a slot: a type, then a width. -/
def readSlot (body : List UInt8) : Except Fault Part :=
  let text := pieces body
  let type := text.takeWhile (!startsWidth ·)
  let digits := text.dropWhile (!startsWidth ·)
  if type.isEmpty || digits.isEmpty then .error (.malformedSlot text)
  else match slotWidth? (digits.map Piece.toChar) with
    | none => .error (.badWidth text)
    | some width =>
      match slotOf? type width with
      | some part => .ok part
      | none => .error (.unknownSlot type)

/-- What the bytes read last have begun. -/
inductive Pending where
  | nothing
  | run (width : Nat) (bits : UInt64)
  | slot (start : Nat) (body : List UInt8)

/-- The part that a pending run stands for. -/
def Pending.flush : Pending → Format
  | run width bits => [.constant width bits]
  | _ => []

/-- Reads the parts of a text from the byte at `offset` on. -/
def readFrom : (offset : Nat) → Pending → List UInt8 → Except Fault Format
  | _, .slot start _, [] => .error (.openSlot start)
  | _, pending, [] => .ok pending.flush
  | offset, .slot start body, byte :: rest =>
    if byte = 0x7d then do
      let part ← readSlot body
      let parts ← readFrom (offset + 1) .nothing rest
      return part :: parts
    else readFrom (offset + 1) (.slot start (body ++ [byte])) rest
  | offset, pending, byte :: rest =>
    if byte = 0x30 ∨ byte = 0x31 then
      let bit := (byte - 0x30).toUInt64
      match pending with
      | .run width bits =>
        if width = 64 then .error .longRun
        else readFrom (offset + 1) (.run (width + 1) (bits <<< 1 ||| bit)) rest
      | _ => readFrom (offset + 1) (.run 1 bit) rest
    else if isBlank (Char.ofNat byte.toNat) then do
      let parts ← readFrom (offset + 1) .nothing rest
      return pending.flush ++ parts
    else if byte = 0x7b then do
      let parts ← readFrom (offset + 1) (.slot offset []) rest
      return pending.flush ++ parts
    else .error (.unexpected byte offset)

def read (text : List UInt8) : Except Fault Format := do
  match ← readFrom 0 .nothing text with
  | [] => .error .empty
  | format => .ok format

end WordAsm.Format
