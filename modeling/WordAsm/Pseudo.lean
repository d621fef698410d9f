import WordAsm.Check
import WordAsm.InstructionSet
import WordAsm.Statement.Grammar
import WordAsm.Token.Scanner

/-! Pseudo-instructions. Their texts are scanned and parsed like source files, and what they
declare is checked: formals are distinct plain names, a derived field selects from a formal
without taking its name, and a template is not empty and defines no label. A mnemonic may stand
for several pseudo-instructions that differ in the number of their formals. -/

namespace WordAsm

structure Pseudo where
  name : String
  params : List String
  fields : NameMap BitField
  body : List Statement
  deriving DecidableEq, Repr

abbrev PseudoTable := List Pseudo

namespace Pseudo

def arity (pseudo : Pseudo) : Nat :=
  pseudo.params.length

/-- Reports a fault of the set rather than of a source. -/
def refuse {α : Type} (fault : Fault) : Except Error α :=
  .error ⟨.nowhere, fault⟩

/-- Scans and parses a text of the set. -/
def readTemplate (lexicon : Lexicon) (name text : String) : Except Error (List Statement) :=
  match Token.scan lexicon "" text.toList >>= Statement.parse with
  | .ok statements => .ok statements
  | .error e => refuse (.unreadableTemplate name e.pos e.fault)

/-- The first name that comes again later. -/
def duplicate? : List String → Option String
  | [] => none
  | name :: rest => if rest.contains name then some name else duplicate? rest

/-- The formals of a signature. -/
def formals (name : String) (args : List Token) : Except Error (List String) :=
  args.mapM fun arg =>
    if arg.kind = .identifier then .ok arg.text else refuse (.formalNotName name arg.text)

/-- What is wrong with a derived field. -/
def fieldFault? (name : String) (params : List String) (entry : String × BitField) :
    Option Fault :=
  let (field, bits) := entry
  if params.contains field then some (.fieldHidesFormal name field)
  else if !params.contains bits.param then some (.fieldOfUnknownFormal name field bits.param)
  else if bits.width = 0 ∨ 64 < bits.shift + bits.width then some (.fieldOutsideWord name field)
  else none

/-- The call pattern of a signature, which is one instruction. -/
def readSignature (lexicon : Lexicon) (signature : String) : Except Error Statement := do
  match ← readTemplate lexicon "signature" signature with
  | [head] =>
    if head.kind = .instruction then .ok head else refuse (.signatureNotSingle signature)
  | _ => refuse (.signatureNotSingle signature)

/-- What is wrong with the formals and the derived fields. -/
def headFault? (name : String) (params : List String) (fields : NameMap BitField) : Option Fault :=
  match duplicate? params with
  | some formal => some (.duplicateFormal name formal)
  | none => fields.findSome? (fieldFault? name params)

/-- What is wrong with a template. -/
def bodyFault? (name : String) (body : List Statement) : Option Fault :=
  if body.isEmpty then some (.emptyTemplate name)
  else match body.find? fun statement => statement.kind = .label with
    | some label => some (.labelInTemplate name label.name.text)
    | none => none

def compile (lexicon : Lexicon) (text : PseudoText) : Except Error Pseudo := do
  let head ← readSignature lexicon text.signature
  let name := head.mnemonic
  let params ← formals name head.args
  forbid ((headFault? name params text.fields).map (⟨.nowhere, ·⟩))
  let body ← readTemplate lexicon name text.body
  forbid ((bodyFault? name body).map (⟨.nowhere, ·⟩))
  return ⟨name, params, text.fields, body⟩

end Pseudo

namespace PseudoTable

/-- The mnemonic, in lower case, stands for some pseudo-instruction. -/
def knows (table : PseudoTable) (mnemonic : String) : Bool :=
  table.any fun pseudo => pseudo.name = mnemonic

/-- The mnemonic, in any case, stands for some pseudo-instruction. -/
def has (table : PseudoTable) (mnemonic : String) : Bool :=
  table.knows (Text.lower mnemonic)

def find? (table : PseudoTable) (mnemonic : String) (arity : Nat) : Option Pseudo :=
  List.find? (fun pseudo => pseudo.name = mnemonic ∧ pseudo.arity = arity) table

/-- The numbers of formals that a mnemonic is known with, in increasing order. -/
def arities (table : PseudoTable) (mnemonic : String) : List Nat :=
  sortBy (fun a b => decide (a ≤ b))
    ((List.filter (fun pseudo => pseudo.name = mnemonic) table).map Pseudo.arity)

/-- Compiles a text and adds it to the table. -/
def add (set : InstructionSet) (table : PseudoTable) (text : PseudoText) :
    Except Error PseudoTable := do
  let pseudo ← Pseudo.compile set.classOf? text
  require (set.format? pseudo.name).isNone ⟨.nowhere, .shadowsInstruction pseudo.name⟩
  require (table.find? pseudo.name pseudo.arity).isNone
    ⟨.nowhere, .duplicatePseudo pseudo.name pseudo.arity⟩
  return table ++ [pseudo]

/-- The pseudo-instructions of a set. -/
def ofSet (set : InstructionSet) : Except Error PseudoTable :=
  set.pseudos.foldlM (add set) []

end PseudoTable

end WordAsm
