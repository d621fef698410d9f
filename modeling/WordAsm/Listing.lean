import WordAsm.Listing.Data
import WordAsm.Listing.Flow

/-! Listings: the disassembly of an image. Cells of code are listed as instructions, with a label
line where a branch leads, and the bytes between them as data. The listing assembles back to the
image. -/

namespace WordAsm.Listing

/-- A cell of code, or the bytes of neighbouring cells that are not. -/
inductive Segment where
  | code (index : Nat) (decoded : Decoded)
  | data (bytes : List UInt8)
  deriving DecidableEq, Repr

/-- Gathers the cells from `index` on into segments. -/
def segments (isCode : Nat → Bool) : (index : Nat) → List Cell → List Segment
  | _, [] => []
  | index, ⟨bytes, decoded⟩ :: rest =>
    let later := segments isCode (index + 1) rest
    match isCode index, decoded, later with
    | true, some decoded, later => .code index decoded :: later
    | _, _, .data more :: later => .data (bytes ++ more) :: later
    | _, _, later => .data bytes :: later

/-- What a listing has to know of an image. -/
structure Context where
  set : InstructionSet
  origin : UInt64
  /-- The bytes of the image. -/
  length : Nat
  /-- The cells that have a label. -/
  labels : List Nat

/-- The number `value`, or the label that it leads to as the target of a branch. -/
def immediate (context : Context) (mnemonic : String) (value : UInt64) : Operand :=
  let size := Flow.cellSize context.set
  match Flow.cellAt? size context.length context.origin value with
  | some index =>
    if context.set.isBranch mnemonic && context.labels.contains index then
      .label (Flow.addressOf size context.origin index)
    else .number value
  | none => .number value

def operand (context : Context) (mnemonic : String) : Part → UInt64 → Operand
  | .typed cls _, value => .name ((context.set.nameOf? cls value).getD "")
  | .immediate _, value => immediate context mnemonic value
  | .constant .., value | .extra _, value => .number value

/-- The part is an extra whose value is zero, so that it can be left out at the end. -/
def isDefault : Part × UInt64 → Bool
  | (.extra _, value) => value == 0
  | _ => false

/-- The slots of an instruction with their values, without the extras that can be left out. -/
def written (decoded : Decoded) : List (Part × UInt64) :=
  ((decoded.format.slots.zip decoded.fields).reverse.dropWhile isDefault).reverse

/-- The operands of an instruction. -/
def operands (context : Context) (decoded : Decoded) : List Operand :=
  (written decoded).map fun (part, value) => operand context decoded.mnemonic part value

/-- The lines of segments, where the first string gets the number `index`. -/
def segmentLines (context : Context) : (index : Nat) → List Segment → List Line
  | _, [] => []
  | index, .code cell decoded :: rest =>
    let address := Flow.addressOf (Flow.cellSize context.set) context.origin cell
    (if context.labels.contains cell then [.label address] else [])
      ++ .code decoded.mnemonic (operands context decoded) :: segmentLines context index rest
  | index, .data bytes :: rest =>
    let (lines, next) := dataLines index bytes
    lines ++ segmentLines context next rest

/-- What the listing of an image has to know of it once its control flow is known. -/
def Context.ofWalk {sweep : Flow.Sweep} (walk : Flow.Walk sweep) : Context :=
  ⟨sweep.set, sweep.origin, sweep.length, walk.labels.map sweep.cellOf⟩

/-- The lines of the listing of an image that is loaded at `origin`. -/
def lines (set : InstructionSet) (origin : UInt64) (code : List UInt8) : List Line :=
  if code.isEmpty then []
  else
    let sweep := Flow.Sweep.ofImage set origin code
    let walk := sweep.walk
    (if origin = 0 then [] else [.origin origin])
      ++ segmentLines (.ofWalk walk) 1 (segments walk.isCode 0 sweep.cells.toList)

end WordAsm.Listing

namespace WordAsm

/-- The listing of an image that is loaded at `origin`. -/
def disassemble (set : InstructionSet) (origin : UInt64) (code : List UInt8) : String :=
  String.join ((Listing.lines set origin code).map Listing.Line.render)

end WordAsm
