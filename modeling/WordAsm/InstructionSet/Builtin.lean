import WordAsm.InstructionSet.Definition

/-! The built-in instruction sets. There is one: zirc16, a machine of sixteen-bit instructions with
sixteen registers and nine conditions. -/

namespace WordAsm

open WordAsm.Text

namespace Zirc16

def registers : List NamedValue :=
  (List.range 16).map fun i => ⟨"r" ++ decimal i, .register, UInt64.ofNat i⟩

def conditions : List NamedValue :=
  [⟨"al", .condition, 0⟩, ⟨"eq", .condition, 1⟩, ⟨"ne", .condition, 2⟩, ⟨"lt", .condition, 3⟩,
   ⟨"ge", .condition, 4⟩, ⟨"gt", .condition, 5⟩, ⟨"le", .condition, 6⟩, ⟨"cs", .condition, 7⟩,
   ⟨"cc", .condition, 8⟩]

def formats : List (String × String) :=
  [("hlt", "00000 0000 0000 000"),
   ("add", "00001 \x7bR4\x7d \x7bR4\x7d 00\x7bE1\x7d"),
   ("sub", "00010 \x7bR4\x7d \x7bR4\x7d 00\x7bE1\x7d"),
   ("adi", "00011 \x7bR4\x7d \x7bIMM6\x7d 0"),
   ("and", "00100 \x7bR4\x7d \x7bR4\x7d 000"),
   ("nor", "00101 \x7bR4\x7d \x7bR4\x7d 000"),
   ("xor", "00110 \x7bR4\x7d \x7bR4\x7d 000"),
   ("rsh", "00111 \x7bR4\x7d 0000 00\x7bE1\x7d"),
   ("cmp", "01000 \x7bR4\x7d \x7bR4\x7d 0\x7bE2\x7d"),
   ("lim", "01001 \x7bR4\x7d \x7bIMM6\x7d 0"),
   ("lui", "01010 \x7bIMM10\x7d 0"),
   ("psh", "01011 \x7bR4\x7d \x7bR4\x7d 000"),
   ("pop", "01100 \x7bR4\x7d \x7bR4\x7d 000"),
   ("str", "01101 \x7bR4\x7d \x7bR4\x7d 000"),
   ("lod", "01110 \x7bR4\x7d \x7bR4\x7d 000"),
   ("brc", "01111 \x7bC4\x7d \x7bIMM6\x7d \x7bE1\x7d"),
   ("bal", "10000 \x7bC4\x7d \x7bR4\x7d 00\x7bE1\x7d"),
   ("ret", "10001 0000 0000 000")]

def pseudos : List PseudoText :=
  [⟨"mov a, b", "xor a, a\nxor a, b", []⟩,
   ⟨"lsh rd", "add rd, r0", []⟩,
   ⟨"jmp addr", "brc al, addr", []⟩,
   ⟨"nop", "add r0, r0", []⟩,
   ⟨"inc rd", "adi rd, 1", []⟩,
   ⟨"ldi rd, value", "lui hi\nlim rd, lo", [("hi", ⟨"value", 6, 10⟩), ("lo", ⟨"value", 0, 6⟩)]⟩]

def definition : Definition where
  name := "zirc16"
  width := 16
  formats := formats
  names := registers ++ conditions
  pseudos := pseudos
  branches := ["brc"]
  terminals := ["hlt", "ret"]

end Zirc16

namespace InstructionSet

/-- A set in which nothing is defined. -/
def empty : InstructionSet :=
  ⟨"", 16, [], [], [], [], [], by decide⟩

/-- The set of a definition that is known to be valid. -/
def ofValid (d : Definition) : InstructionSet :=
  match ofDefinition d with
  | .ok set => set
  | .error _ => empty

def zirc16 : InstructionSet :=
  ofValid Zirc16.definition

/-- The built-in sets under their names in lower case. -/
def builtins : NameMap InstructionSet :=
  [("zirc16", zirc16)]

def builtin? (name : String) : Option InstructionSet :=
  builtins.get? (lower name)

def builtinNames : List String :=
  sortTexts builtins.names

end InstructionSet

end WordAsm
