import Mathlib.Data.List.Induction
import Mathlib.Tactic.Ring
import WordAsm.Word

/-! Words as numbers. Shifts, masks and packing are arithmetic on `toNat`, and a word is the number
that its bytes spell in base 256, so writing a word and reading bytes undo one another. -/

/-- Blocks of one length. -/
theorem WordAsm.length_flatMap_of_forall {α β : Type} (f : α → List β) (count : Nat)
    (list : List α) (h : ∀ a ∈ list, (f a).length = count) :
    (list.flatMap f).length = list.length * count := by
  induction list with
  | nil => exact (Nat.zero_mul count).symm
  | cons a list ih =>
    rw [List.flatMap_cons, List.length_append, h a List.mem_cons_self,
      ih fun b hb => h b (List.mem_cons_of_mem a hb), List.length_cons, Nat.succ_mul, Nat.add_comm]

namespace WordAsm.Word

@[simp]
theorem toNat_shl (word : UInt64) (amount : Nat) :
    (shl word amount).toNat = word.toNat * 2 ^ amount % 2 ^ 64 := by
  by_cases h : amount < 64
  · have hamount : amount % 2 ^ 64 = amount := Nat.mod_eq_of_lt (by omega)
    rw [shl, if_pos h, UInt64.toNat_shiftLeft, UInt64.toNat_ofNat', hamount, Nat.mod_eq_of_lt h,
      Nat.shiftLeft_eq]
  · -- every bit of the word is shifted out
    have hdvd : 2 ^ 64 ∣ word.toNat * 2 ^ amount :=
      Nat.dvd_mul_left_of_dvd (Nat.pow_dvd_pow 2 (by omega)) _
    rw [shl, if_neg h, Nat.mod_eq_zero_of_dvd hdvd]
    rfl

/-- Shifting in a value that fits the freed bits adds it. -/
theorem toNat_shl_or (word value : UInt64) (width : Nat) (hvalue : value.toNat < 2 ^ width)
    (hword : word.toNat * 2 ^ width + value.toNat < 2 ^ 64) :
    (shl word width ||| value).toNat = word.toNat * 2 ^ width + value.toNat := by
  rw [UInt64.toNat_or, toNat_shl, Nat.mod_eq_of_lt (by omega), ← Nat.shiftLeft_eq,
    Nat.shiftLeft_add_eq_or_of_lt hvalue]

@[simp]
theorem toNat_shr (word : UInt64) (amount : Nat) :
    (shr word amount).toNat = word.toNat / 2 ^ amount := by
  by_cases h : amount < 64
  · have hamount : amount % 2 ^ 64 = amount := Nat.mod_eq_of_lt (by omega)
    rw [shr, if_pos h, UInt64.toNat_shiftRight, UInt64.toNat_ofNat', hamount, Nat.mod_eq_of_lt h,
      Nat.shiftRight_eq_div_pow]
  · have hlt : word.toNat < 2 ^ amount :=
      lt_of_lt_of_le word.toNat_lt (Nat.pow_le_pow_right (by omega) (by omega))
    rw [shr, if_neg h, Nat.div_eq_of_lt hlt]
    rfl

theorem toNat_lowMask (width : Nat) (h : width ≤ 64) : (lowMask width).toNat = 2 ^ width - 1 := by
  have hpos : 0 < 2 ^ width := Nat.two_pow_pos width
  have hle : 2 ^ width ≤ 2 ^ 64 := Nat.pow_le_pow_right (by omega) h
  rw [lowMask, UInt64.toNat_sub, toNat_shl]
  change (2 ^ 64 - 1 + 1 * 2 ^ width % 2 ^ 64) % 2 ^ 64 = 2 ^ width - 1
  -- at 64 bits the shift gives zero, and the subtraction wraps to all ones
  rcases Nat.lt_or_eq_of_le hle with hlt | heq
  · rw [one_mul, Nat.mod_eq_of_lt hlt]
    omega
  · rw [one_mul, heq]
    decide

/-- Masking keeps the low bits, whatever the width. -/
@[simp]
theorem toNat_and_lowMask (word : UInt64) (width : Nat) :
    (word &&& lowMask width).toNat = word.toNat % 2 ^ width := by
  by_cases h : width ≤ 64
  · rw [UInt64.toNat_and, toNat_lowMask width h, Nat.and_two_pow_sub_one_eq_mod]
  · have hmask : lowMask width = lowMask 64 := by
      rw [lowMask, lowMask, shl, shl, if_neg (by omega), if_neg (by omega)]
    have hlt : word.toNat < 2 ^ width :=
      lt_of_lt_of_le word.toNat_lt (Nat.pow_le_pow_right (by omega) (by omega))
    rw [hmask, UInt64.toNat_and, toNat_lowMask 64 le_rfl, Nat.and_two_pow_sub_one_eq_mod,
      Nat.mod_eq_of_lt word.toNat_lt, Nat.mod_eq_of_lt hlt]

/-- Ones that are shifted out from above leave the mask of those that remain. -/
theorem shr_ones (width : Nat) : shr (~~~0) (64 - width) = lowMask width := by
  by_cases h : width ≤ 64
  · apply UInt64.toNat_inj.mp
    have hsplit : 2 ^ (64 - width) * 2 ^ width = 2 ^ 64 := by
      rw [← Nat.pow_add, Nat.sub_add_cancel h]
    have hpos : 0 < 2 ^ (64 - width) * 2 ^ width := by
      rw [hsplit]
      decide
    rw [toNat_shr, toNat_lowMask width h]
    calc (2 ^ 64 - 1) / 2 ^ (64 - width)
        = (2 ^ (64 - width) * 2 ^ width - (0 + 1)) / 2 ^ (64 - width) := by rw [hsplit]
      _ = 2 ^ width - (0 / 2 ^ (64 - width) + 1) := Nat.mul_sub_div 0 _ _ hpos
      _ = 2 ^ width - 1 := by rw [Nat.zero_div]
  · -- nothing is shifted out, and the mask has all bits
    rw [lowMask, shl, if_neg (by omega), Nat.sub_eq_zero_of_le (by omega)]
    decide

theorem fits_iff (word : UInt64) (width : Nat) :
    fits word width = true ↔ word.toNat < 2 ^ width := by
  have hpos : 0 < 2 ^ width := Nat.two_pow_pos width
  rw [fits, beq_iff_eq, ← UInt64.toNat_inj, toNat_shr]
  exact Nat.div_eq_zero_iff_lt hpos

/-- The number that bytes spell, most significant first. -/
def ofBytes (bytes : List UInt8) : Nat :=
  bytes.foldl (fun value byte => value * 256 + byte.toNat) 0

theorem ofBytes_concat (bytes : List UInt8) (byte : UInt8) :
    ofBytes (bytes ++ [byte]) = ofBytes bytes * 256 + byte.toNat := by
  rw [ofBytes, List.foldl_append]
  rfl

theorem ofBytes_lt (bytes : List UInt8) : ofBytes bytes < 256 ^ bytes.length := by
  induction bytes using List.reverseRecOn with
  | nil => decide
  | append_singleton bytes byte ih =>
    have hbyte : byte.toNat < 256 := byte.toNat_lt
    rw [ofBytes_concat, List.length_append, List.length_singleton, Nat.pow_succ]
    omega

/-- Equally many bytes that spell the same number are the same. -/
theorem ofBytes_injective (bytes bytes' : List UInt8) (hlength : bytes.length = bytes'.length)
    (h : ofBytes bytes = ofBytes bytes') : bytes = bytes' := by
  induction bytes using List.reverseRecOn generalizing bytes' with
  | nil => exact (List.length_eq_zero_iff.mp hlength.symm).symm
  | append_singleton bytes byte ih =>
    rcases List.eq_nil_or_concat bytes' with rfl | ⟨front, last, rfl⟩
    · simp at hlength
    · have hbyte : byte.toNat < 256 := byte.toNat_lt
      have hlast : last.toNat < 256 := last.toNat_lt
      rw [List.concat_eq_append] at hlength h ⊢
      rw [ofBytes_concat, ofBytes_concat] at h
      -- the last byte is the remainder modulo 256 and the bytes before it spell the quotient
      have hfront : bytes = front := ih front (by simpa using hlength) (by omega)
      have heq : byte = last := UInt8.toNat_inj.mp (by omega)
      rw [hfront, heq]

@[simp]
theorem toBytes_length (count : Nat) (word : UInt64) : (toBytes count word).length = count := by
  induction count generalizing word with
  | zero => rfl
  | succ count ih => rw [toBytes, List.length_append, ih, List.length_singleton]

/-- The low bytes of a word spell what the word is modulo their range. -/
@[simp]
theorem ofBytes_toBytes (count : Nat) (word : UInt64) :
    ofBytes (toBytes count word) = word.toNat % 256 ^ count := by
  induction count generalizing word with
  | zero => rw [Nat.pow_zero, Nat.mod_one]; rfl
  | succ count ih =>
    have hshift : (word >>> 8).toNat = word.toNat / 256 := by
      rw [UInt64.toNat_shiftRight, Nat.shiftRight_eq_div_pow]
      rfl
    have hlow : word.toUInt8.toNat = word.toNat % 256 := UInt64.toNat_toUInt8 word
    rw [toBytes, ofBytes_concat, ih, hshift, hlow, Nat.pow_succ, Nat.mul_comm (256 ^ count),
      Nat.mod_mul]
    ring

/-- Cutting a word down to the bytes that are written does not show in them. -/
@[simp]
theorem toBytes_and_mask (count : Nat) (word : UInt64) :
    toBytes count (word &&& shr (~~~0) (64 - 8 * count)) = toBytes count word := by
  apply ofBytes_injective _ _ (by simp)
  rw [ofBytes_toBytes, ofBytes_toBytes, shr_ones, toNat_and_lowMask, Nat.pow_mul]
  exact Nat.mod_mod _ _

theorem ofBytes_cons (byte : UInt8) (bytes : List UInt8) :
    ofBytes (byte :: bytes) = byte.toNat * 256 ^ bytes.length + ofBytes bytes := by
  induction bytes using List.reverseRecOn with
  | nil => simp [ofBytes]
  | append_singleton bytes last ih =>
    rw [← List.cons_append, ofBytes_concat, ofBytes_concat, ih, List.length_append,
      List.length_singleton, Nat.pow_succ]
    ring

theorem toNat_shiftLeft_or_byte (word : UInt64) (byte : UInt8) :
    (word <<< 8 ||| byte.toUInt64).toNat = (word.toNat * 256 + byte.toNat) % 2 ^ 64 := by
  have hbyte : byte.toNat < 2 ^ 8 := byte.toNat_lt
  have hshift : (word <<< 8).toNat = (word.toNat % 2 ^ 56) <<< 8 := by
    rw [UInt64.toNat_shiftLeft, Nat.shiftLeft_eq, Nat.shiftLeft_eq]
    change word.toNat * 2 ^ 8 % 2 ^ 64 = _
    omega
  rw [UInt64.toNat_or, UInt8.toNat_toUInt64, hshift, ← Nat.shiftLeft_add_eq_or_of_lt hbyte,
    Nat.shiftLeft_eq]
  omega

/-- Reading exactly the bytes given appends what they spell. -/
theorem toNat_readBytes (bytes : List UInt8) (word : UInt64) :
    (readBytes bytes.length word bytes).toNat =
      (word.toNat * 256 ^ bytes.length + ofBytes bytes) % 2 ^ 64 := by
  induction bytes generalizing word with
  | nil =>
    change word.toNat = (word.toNat * 1 + 0) % 2 ^ 64
    rw [Nat.mul_one, Nat.add_zero, Nat.mod_eq_of_lt word.toNat_lt]
  | cons byte bytes ih =>
    rw [List.length_cons, readBytes, ih, toNat_shiftLeft_or_byte, ofBytes_cons, Nat.pow_succ]
    -- what wrapped around before more bytes came in makes no difference modulo the word
    rw [Nat.add_mod, Nat.mod_mul_mod, ← Nat.add_mod]
    congr 1
    ring

/-- Reading a word stops behind its bytes. -/
theorem readBytes_append (bytes more : List UInt8) (word : UInt64) :
    readBytes bytes.length word (bytes ++ more) = readBytes bytes.length word bytes := by
  induction bytes generalizing word with
  | nil =>
    rw [List.length_nil, readBytes, readBytes]
  | cons byte bytes ih =>
    rw [List.length_cons, List.cons_append, readBytes, readBytes]
    exact ih _

theorem decode_append (width : Nat) (bytes more : List UInt8)
    (h : bytes.length = width / 8) : decode width (bytes ++ more) = decode width bytes := by
  rw [decode, decode, ← h]
  exact readBytes_append bytes more 0

theorem toNat_decode (width : Nat) (bytes : List UInt8) (hwidth : width ≤ 64)
    (hlength : bytes.length = width / 8) : (decode width bytes).toNat = ofBytes bytes := by
  have hpow : 256 ^ bytes.length ≤ 2 ^ 64 := by
    calc
      256 ^ bytes.length ≤ 256 ^ 8 := Nat.pow_le_pow_right (by omega) (by omega)
      _ = 2 ^ 64 := by decide
  rw [decode, ← hlength, toNat_readBytes]
  change (0 * _ + _) % _ = _
  rw [Nat.zero_mul, Nat.zero_add, Nat.mod_eq_of_lt (lt_of_lt_of_le (ofBytes_lt bytes) hpow)]

/-- The bytes of a whole word read as a word of that width. -/
theorem toNat_decode_lt (width : Nat) (bytes : List UInt8) (hwidth : width ≤ 64)
    (hlength : bytes.length = width / 8) : (decode width bytes).toNat < 2 ^ width := by
  rw [toNat_decode width bytes hwidth hlength]
  calc
    ofBytes bytes < 256 ^ bytes.length := ofBytes_lt bytes
    _ = 2 ^ (8 * (width / 8)) := by rw [hlength, Nat.pow_mul]
    _ ≤ 2 ^ width := Nat.pow_le_pow_right (by omega) (by omega)

/-- Bytes that make up a word are what is written of it. -/
theorem encode_decode (width : Nat) (bytes : List UInt8) (hwidth : width ≤ 64)
    (hlength : bytes.length = width / 8) : encode width (decode width bytes) = bytes := by
  apply ofBytes_injective
  · simp [encode, hlength]
  · rw [encode, ofBytes_toBytes, toNat_decode width bytes hwidth hlength, ← hlength,
      Nat.mod_eq_of_lt (ofBytes_lt bytes)]

/-- A word that its bytes have room for is read back from them. -/
theorem decode_encode (width : Nat) (word : UInt64) (hwidth : width ≤ 64) (hmod : width % 8 = 0)
    (hword : word.toNat < 2 ^ width) : decode width (encode width word) = word := by
  have hpow : 256 ^ (width / 8) = 2 ^ width := by
    rw [show 256 = 2 ^ 8 from rfl, ← Nat.pow_mul, Nat.mul_div_cancel' (Nat.dvd_of_mod_eq_zero hmod)]
  apply UInt64.toNat_inj.mp
  rw [encode, toNat_decode width _ hwidth (toBytes_length _ _), ofBytes_toBytes, hpow,
    Nat.mod_eq_of_lt hword]

end WordAsm.Word
