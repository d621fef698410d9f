/-! Words of up to 64 bits. Shift amounts are natural numbers, and a shift by 64 or more leaves
nothing, so shifting agrees with multiplication and division by powers of two for every amount.
In bytes a word is written most significant first. -/

namespace WordAsm.Word

/-- The number of words, `2 ^ 64`. -/
def modulus : Nat := 0x10000000000000000

def shl (word : UInt64) (amount : Nat) : UInt64 :=
  if amount < 64 then word <<< UInt64.ofNat amount else 0

def shr (word : UInt64) (amount : Nat) : UInt64 :=
  if amount < 64 then word >>> UInt64.ofNat amount else 0

/-- The `width` lowest bits set; all of them when `width` is 64 or more. -/
def lowMask (width : Nat) : UInt64 :=
  shl 1 width - 1

/-- The word has no bit set above its `width` lowest ones. -/
def fits (word : UInt64) (width : Nat) : Bool :=
  shr word width == 0

/-- How many bits of the word are set. -/
def bitCount (word : UInt64) : Nat :=
  (List.range 64).countP fun i => word.toNat.testBit i

/-- The `count` lowest bytes of a word. -/
def toBytes : (count : Nat) → UInt64 → List UInt8
  | 0, _ => []
  | count + 1, word => toBytes count (word >>> 8) ++ [word.toUInt8]

/-- Reads `count` bytes behind the word read so far; bytes that are missing count as zero. -/
def readBytes : (count : Nat) → UInt64 → List UInt8 → UInt64
  | 0, word, _ => word
  | count + 1, word, [] => readBytes count (word <<< 8) []
  | count + 1, word, byte :: rest => readBytes count (word <<< 8 ||| byte.toUInt64) rest

/-- The bytes of a word of `width` bits, of which only whole bytes are written. -/
def encode (width : Nat) (word : UInt64) : List UInt8 :=
  toBytes (width / 8) word

/-- The word of `width` bits at the start of `bytes`. -/
def decode (width : Nat) (bytes : List UInt8) : UInt64 :=
  readBytes (width / 8) 0 bytes

end WordAsm.Word
