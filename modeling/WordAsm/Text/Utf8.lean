/-! Texts and their bytes. Decoding keeps every byte that belongs to no well-formed character as a
stray byte of its own; overlong forms, surrogates and code points above `0x10ffff` are not
well-formed. Read as a text, each stray byte stands for the replacement character. -/

namespace WordAsm.Text

def encode (text : List Char) : List UInt8 :=
  text.flatMap String.utf8EncodeChar

/-- How many bytes a text has. -/
def byteCount (text : String) : Nat :=
  (encode text.toList).length

inductive Piece where
  | char (c : Char)
  | stray (byte : UInt8)
  deriving DecidableEq, Repr

/-- A byte that can continue a character of several bytes. -/
def isContinuation (b : UInt8) : Bool :=
  0x80 ≤ b && b < 0xc0

def pair? (a b : UInt8) : Option Char :=
  if 0xc2 ≤ a && a < 0xe0 && isContinuation b then
    some (Char.ofNat ((a.toNat - 0xc0) * 0x40 + (b.toNat - 0x80)))
  else none

def triple? (a b c : UInt8) : Option Char :=
  let n := (a.toNat - 0xe0) * 0x1000 + (b.toNat - 0x80) * 0x40 + (c.toNat - 0x80)
  if 0xe0 ≤ a && a < 0xf0 && isContinuation b && isContinuation c && 0x800 ≤ n
      && !(0xd800 ≤ n && n < 0xe000) then
    some (Char.ofNat n)
  else none

def quad? (a b c d : UInt8) : Option Char :=
  let n := (a.toNat - 0xf0) * 0x40000 + (b.toNat - 0x80) * 0x1000 + (c.toNat - 0x80) * 0x40
    + (d.toNat - 0x80)
  if 0xf0 ≤ a && a < 0xf5 && isContinuation b && isContinuation c && isContinuation d
      && 0x10000 ≤ n && n < 0x110000 then
    some (Char.ofNat n)
  else none

/-- The character that starts with the byte `a`, and how many bytes of the rest belong to it. -/
def lead? (a : UInt8) (rest : List UInt8) : Option (Char × Nat) :=
  if a < 0x80 then some (Char.ofNat a.toNat, 0)
  else
    let b := rest.getD 0 0
    let c := rest.getD 1 0
    let d := rest.getD 2 0
    ((pair? a b).map (·, 1)).or (((triple? a b c).map (·, 2)).or ((quad? a b c d).map (·, 3)))

/-- The pieces of a byte sequence whose first `skip` bytes belong to a character already read. -/
def piecesAfter : (skip : Nat) → List UInt8 → List Piece
  | _, [] => []
  | skip + 1, _ :: rest => piecesAfter skip rest
  | 0, a :: rest =>
    match lead? a rest with
    | some (c, more) => .char c :: piecesAfter more rest
    | none => .stray a :: piecesAfter 0 rest

def pieces (bytes : List UInt8) : List Piece :=
  piecesAfter 0 bytes

def Piece.toChar : Piece → Char
  | .char c => c
  | .stray _ => '�'

def decode (bytes : List UInt8) : List Char :=
  (pieces bytes).map Piece.toChar

end WordAsm.Text
