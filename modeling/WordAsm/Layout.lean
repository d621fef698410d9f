import WordAsm.Directive
import WordAsm.Fault
import WordAsm.InstructionSet

/-! Layout of a program. Statements follow one another from the last origin on, each label stands
for the address that it is defined at, and in the second pass label references become numbers.
Addresses count words of sixteen bits and wrap at 64 bits; a block of an odd number of bytes
counts for the whole words in it. -/

namespace WordAsm

/-- Where a label was defined last. -/
structure LabelSite where
  address : UInt64
  pos : Position
  deriving DecidableEq, Repr

/-- A program with its addresses. -/
structure Layout where
  statements : List Statement
  labels : NameMap UInt64
  deriving DecidableEq, Repr

namespace Layout

/-- The address that an `org` statement asks for. -/
def originOf (statement : Statement) : Except Error UInt64 :=
  match statement.args with
  | [arg] =>
    if arg.kind = .number then
      match arg.value with
      | .ok value => .ok value
      | .error fault => .error ⟨arg.pos, .originUnreadable fault⟩
    else .error ⟨arg.pos, .originNotNumber arg.kind arg.text⟩
  | args => .error ⟨statement.name.pos, .originArity args.length⟩

/-- The bytes that a statement takes: whole words for an instruction of `width` bits. -/
def sizeOf (width : Nat) (statement : Statement) : UInt64 :=
  match Directive.slotSize? statement.mnemonic with
  | some slotSize => UInt64.ofNat (Directive.dataSize slotSize statement.args)
  | none => UInt64.ofNat (width / 16 * 2)

/-- Gives every statement from `address` on its place and records the labels; labels and origins
themselves take no place. -/
def place (width : Nat) (strict : Bool) :
    (address : UInt64) → NameMap LabelSite → List Statement →
      Except Error (List Statement × NameMap LabelSite)
  | _, labels, [] => .ok ([], labels)
  | address, labels, statement :: rest =>
    if statement.kind = .label then
      let name := statement.name.text
      let known := if strict then labels.get? name else none
      match known with
      | some site => .error ⟨statement.name.pos, .duplicateLabel name site.pos⟩
      | none => place width strict address (labels.put name ⟨address, statement.name.pos⟩) rest
    else if Directive.isOrigin statement.mnemonic then do
      let origin ← originOf statement
      place width strict origin labels rest
    else do
      let size := sizeOf width statement
      let (placed, labels) ← place width strict (address + size / 2) labels rest
      return ({ statement with address, size } :: placed, labels)

/-- Replaces a label reference by its number. -/
def resolveArg (labels : NameMap UInt64) (arg : Token) : Except Error Token :=
  if arg.kind = .identifier then
    match labels.get? arg.text with
    | some address => .ok (Token.ofValue (BitField.applyAll arg.fields address) arg.pos)
    | none => .error ⟨arg.pos, .undeclaredLabel arg.text⟩
  else .ok arg

def resolveArgs (labels : NameMap UInt64) (statement : Statement) : Except Error Statement := do
  let args ← statement.args.mapM (resolveArg labels)
  return { statement with args }

/-- The layout of a program for instructions of `width` bits. A label that is defined twice is a
fault if `strict` is set; otherwise its last definition counts. -/
def resolve (width : Nat) (strict : Bool) (statements : List Statement) : Except Error Layout := do
  let (placed, sites) ← place width strict 0 [] statements
  let labels := sites.map fun (name, site) => (name, site.address)
  let resolved ← placed.mapM (resolveArgs labels)
  return ⟨resolved, labels⟩

/-- The definitions that take the place of an earlier one, each with the position of that, as far
as placing gets. -/
def redefinitions : NameMap LabelSite → List Statement → List (Token × Position)
  | _, [] => []
  | labels, statement :: rest =>
    if statement.kind = .label then
      let name := statement.name
      let later := redefinitions (labels.put name.text ⟨0, name.pos⟩) rest
      match labels.get? name.text with
      | some site => (name, site.pos) :: later
      | none => later
    else if Directive.isOrigin statement.mnemonic then
      match originOf statement with
      | .ok _ => redefinitions labels rest
      | .error _ => []
    else redefinitions labels rest

end Layout

end WordAsm
