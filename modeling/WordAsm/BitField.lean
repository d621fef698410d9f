import WordAsm.Word

/-! Bit fields: `width` bits of a named value, from bit `shift` upwards. -/

namespace WordAsm

structure BitField where
  param : String
  shift : UInt64
  width : UInt64
  deriving DecidableEq, Repr

/-- The bits of `value` that the field selects. -/
def BitField.apply (field : BitField) (value : UInt64) : UInt64 :=
  Word.shr value field.shift.toNat &&& Word.lowMask field.width.toNat

/-- Applies a chain of selections, the first one innermost. -/
def BitField.applyAll (fields : List BitField) (value : UInt64) : UInt64 :=
  fields.foldl (fun value field => field.apply value) value

end WordAsm
