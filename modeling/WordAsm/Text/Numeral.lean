import WordAsm.Word

/-! Numerals. Digits are written most significant first with lower-case letters above nine, and
read from left to right, so that of a bad digit and an overflow the earlier one is reported. -/

namespace WordAsm.Text

def digitChar (d : Nat) : Char :=
  if d < 10 then Char.ofNat (0x30 + d) else Char.ofNat (0x61 + (d - 10))

/-- The digits of `n`; in a base below two, `n` counts as one digit. -/
def digits (base n : Nat) : List Char :=
  if 2 ≤ base ∧ base ≤ n then digits base (n / base) ++ [digitChar (n % base)] else [digitChar n]
termination_by n
decreasing_by exact Nat.div_lt_self (by omega) (by omega)

def decimal (n : Nat) : String :=
  String.ofList (digits 10 n)

def signed (n : Int) : String :=
  if n < 0 then "-" ++ decimal n.natAbs else decimal n.natAbs

/-- Hexadecimal digits, at least `width` of them. -/
def hex (width n : Nat) : String :=
  String.ofList ((digits 16 n).leftpad width '0')

/-- Hexadecimal digits with capital letters, at least `width` of them. -/
def capitalHex (width n : Nat) : String :=
  String.ofList (((digits 16 n).leftpad width '0').map Char.toUpper)

def digitValue? (c : Char) : Option Nat :=
  let n := c.toNat
  if 0x30 ≤ n && n ≤ 0x39 then some (n - 0x30)
  else if 0x61 ≤ n && n ≤ 0x7a then some (n - 0x61 + 10)
  else if 0x41 ≤ n && n ≤ 0x5a then some (n - 0x41 + 10)
  else none

inductive NumeralFault where
  | malformed
  | outOfRange
  | unusableBase (base : Int)
  deriving DecidableEq, Repr

/-- Reads digits after those worth `value`; the result has to be a word. -/
def readDigits (base : Nat) : (value : Nat) → List Char → Except NumeralFault Nat
  | value, [] => .ok value
  | value, c :: rest =>
    match digitValue? c with
    | none => .error .malformed
    | some d =>
      if base ≤ d then .error .malformed
      else if Word.modulus ≤ value * base + d then .error .outOfRange
      else readDigits base (value * base + d) rest

/-- Each underscore has a digit before and after it. -/
def underscoresApart : (afterDigit : Bool) → List Char → Bool
  | afterDigit, [] => afterDigit
  | afterDigit, c :: rest =>
    if c = '_' then afterDigit && underscoresApart false rest else underscoresApart true rest

/-- A numeral that names its own base: a leading zero with the mark `b`, `o` or `x` and something
after it stands for two, eight or sixteen, a leading zero alone for eight. Underscores may part
the digits, and the lead counts as a digit before them. -/
def readMarked (text : List Char) : Except NumeralFault Nat := do
  let (base, lead, body) : Nat × Bool × List Char :=
    match text with
    | '0' :: mark :: c :: rest =>
      if mark = 'b' ∨ mark = 'B' then (2, true, c :: rest)
      else if mark = 'o' ∨ mark = 'O' then (8, true, c :: rest)
      else if mark = 'x' ∨ mark = 'X' then (16, true, c :: rest)
      else (8, true, mark :: c :: rest)
    | '0' :: rest => (8, true, rest)
    | _ => (10, false, text)
  let value ← readDigits base 0 (body.filter (· ≠ '_'))
  if underscoresApart lead body then .ok value else .error .malformed

/-- Reads an unsigned 64-bit number in a base from two to thirty-six; base zero leaves the choice
to the numeral. -/
def readNumeral (base : Int) (text : List Char) : Except NumeralFault UInt64 :=
  if text.isEmpty then .error .malformed
  else if 2 ≤ base ∧ base ≤ 36 then (readDigits base.toNat 0 text).map UInt64.ofNat
  else if base = 0 then (readMarked text).map UInt64.ofNat
  else .error (.unusableBase base)

/-- Reads a number in base ten that may carry a sign. -/
def readSigned? (text : List Char) : Option Int :=
  let (negative, digits) : Bool × List Char :=
    match text with
    | '-' :: digits => (true, digits)
    | '+' :: digits => (false, digits)
    | digits => (false, digits)
  match digits, readDigits 10 0 digits with
  | _ :: _, .ok n => some (if negative then -n else n)
  | _, _ => none

end WordAsm.Text
