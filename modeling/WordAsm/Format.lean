import WordAsm.Class
import WordAsm.Text.Numeral
import WordAsm.Word

/-! Instruction formats: the parts of an instruction word, most significant first. A part is a
run of constant bits or a slot for an operand, and every slot of a word can be read on its own
because the bits behind it have a known number. -/

namespace WordAsm

inductive Part where
  /-- Literal bits. -/
  | constant (width : Nat) (bits : UInt64)
  /-- A slot for a named value. -/
  | typed (cls : Class) (width : Nat)
  /-- A slot for a number. -/
  | immediate (width : Nat)
  /-- A slot for a number that is zero when it is left out. -/
  | extra (width : Nat)
  deriving DecidableEq, Repr

namespace Part

def width : Part → Nat
  | constant width _ | typed _ width | immediate width | extra width => width

def isSlot : Part → Bool
  | constant .. => false
  | typed .. | immediate _ | extra _ => true

/-- Binary digits filled up to `width`. A width that a signed 64-bit number cannot hold is the
negative number it stands for, which fills up with blanks behind the digits, and a width of more
than a million either way is not used. -/
def binary (width : Nat) (bits : UInt64) : String :=
  let text := Text.digits 2 bits.toNat
  if width ≤ 1000000 then String.ofList (text.leftpad width '0')
  else if Word.modulus ≤ width + 1000000 then
    String.ofList (text.rightpad (Word.modulus - width) ' ')
  else "%!(BADWIDTH)" ++ String.ofList text

def render : Part → String
  | constant width bits => binary width bits
  | typed cls width => "\x7b" ++ cls.letter.toString ++ Text.decimal width ++ "\x7d"
  | immediate width => "\x7bIMM" ++ Text.decimal width ++ "\x7d"
  | extra width => "\x7bE" ++ Text.decimal width ++ "\x7d"

/-- What the parts of a format that was read keep to: they have one to 64 bits, constants fit their
width, and slots are typed only by the three classes that have a letter. -/
structure WellFormed (part : Part) : Prop where
  width_pos : 1 ≤ part.width
  width_le : part.width ≤ 64
  constant_fits : ∀ width bits, part = .constant width bits → bits.toNat < Nat.pow 2 width
  typed_class : ∀ cls width, part = .typed cls width →
    cls = .register ∨ cls = .condition ∨ cls = .special

/-- Only what is special about the kind of a part is left to check once its width is known. -/
theorem wellFormed_iff (part : Part) :
    part.WellFormed ↔ (1 ≤ part.width ∧ part.width ≤ 64) ∧
      match part with
      | constant width bits => bits.toNat < Nat.pow 2 width
      | typed cls _ => cls = .register ∨ cls = .condition ∨ cls = .special
      | immediate _ | extra _ => True := by
  constructor
  · intro h
    refine ⟨⟨h.width_pos, h.width_le⟩, ?_⟩
    cases part with
    | constant width bits => exact h.constant_fits width bits rfl
    | typed cls width => exact h.typed_class cls width rfl
    | immediate | extra => trivial
  · rintro ⟨⟨hpos, hle⟩, hkind⟩
    cases part with
    | constant width bits => exact ⟨hpos, hle, by rintro _ _ ⟨⟩; exact hkind, nofun⟩
    | typed cls width => exact ⟨hpos, hle, nofun, by rintro _ _ ⟨⟩; exact hkind⟩
    | immediate | extra => exact ⟨hpos, hle, nofun, nofun⟩

instance : DecidablePred WellFormed
  | constant width bits => decidable_of_iff _ (wellFormed_iff (constant width bits)).symm
  | typed cls width => decidable_of_iff _ (wellFormed_iff (typed cls width)).symm
  | immediate width => decidable_of_iff _ (wellFormed_iff (immediate width)).symm
  | extra width => decidable_of_iff _ (wellFormed_iff (extra width)).symm

end Part

abbrev Format := List Part

/-- The constant bits of a format: where they stand and what they are. -/
structure Pattern where
  mask : UInt64
  bits : UInt64
  deriving DecidableEq, Repr

namespace Format

def width : Format → Nat
  | [] => 0
  | part :: rest => part.width + width rest

/-- How far the parts in front of `rest` are from the low end of the word, as a 64-bit number. -/
def offset (rest : Format) : Nat :=
  width rest % Word.modulus

/-- How many parts take an operand. -/
def operands (format : Format) : Nat :=
  format.countP Part.isSlot

def pattern : Format → Pattern
  | [] => ⟨0, 0⟩
  | .constant width bits :: rest =>
    ⟨Word.shl (Word.lowMask width) (offset rest) ||| (pattern rest).mask,
      Word.shl bits (offset rest) ||| (pattern rest).bits⟩
  | _ :: rest => pattern rest

/-- The word has the constant bits of the format. -/
def admits (format : Format) (word : UInt64) : Bool :=
  word &&& format.pattern.mask == format.pattern.bits

/-- The values of the slots in a word, in format order. -/
def fields (word : UInt64) : Format → List UInt64
  | [] => []
  | part :: rest =>
    if part.isSlot then
      (Word.shr word (offset rest) &&& Word.lowMask part.width) :: fields word rest
    else fields word rest

def render (format : Format) : String :=
  " ".intercalate (format.map Part.render)

def WellFormed (format : Format) : Prop :=
  ∀ part ∈ format, part.WellFormed

instance : DecidablePred WellFormed := fun format =>
  inferInstanceAs (Decidable (∀ part ∈ format, part.WellFormed))

end Format

end WordAsm
