import Mathlib.Data.List.Forall2
import WordAsm.Image
import WordAsm.Listing.Decoder
import WordAsm.Proofs.Words

/-! Words laid out in a format. The values of all parts, constants included, are the digits of a
word in a mixed base, so packing them and splitting a word undo one another; a word has the
constant bits of a format exactly when the digits of its constant parts are their bits. -/

namespace WordAsm

namespace Format

/-- The values of all parts, for given values of the slots. -/
def fill : Format → List UInt64 → List UInt64
  | [], _ => []
  | .constant _ bits :: rest, values => bits :: fill rest values
  | _ :: _, [] => []
  | _ :: rest, value :: values => value :: fill rest values

/-- The number that the values of the parts spell, each part a digit of its own base. -/
def number : Format → List UInt64 → Nat
  | _ :: rest, value :: values => value.toNat * 2 ^ width rest + number rest values
  | _, _ => 0

/-- Every part holds its value. -/
def Fits (format : Format) (values : List UInt64) : Prop :=
  List.Forall₂ (fun part value => value.toNat < 2 ^ part.width) format values

theorem fill_of_slot (part : Part) (rest : Format) (value : UInt64) (values : List UInt64)
    (h : part.isSlot = true) :
    fill (part :: rest) (value :: values) = value :: fill rest values := by
  cases part with
  | constant => cases h
  | typed | immediate | extra => rfl

theorem offset_eq (rest : Format) (h : width rest ≤ 64) : offset rest = width rest :=
  Nat.mod_eq_of_lt (lt_of_le_of_lt h (by decide))

theorem mul_two_pow_add_lt (a b m k : Nat) (ha : a < 2 ^ m) (hb : b < 2 ^ k) :
    a * 2 ^ k + b < 2 ^ (m + k) := by
  calc
    a * 2 ^ k + b < (a + 1) * 2 ^ k := by rw [Nat.succ_mul]; omega
    _ ≤ 2 ^ m * 2 ^ k := Nat.mul_le_mul_right _ ha
    _ = 2 ^ (m + k) := (Nat.pow_add _ _ _).symm

theorem number_lt (format : Format) (values : List UInt64) (h : format.Fits values) :
    number format values < 2 ^ width format := by
  induction h with
  | nil => decide
  | cons hvalue _ ih => exact mul_two_pow_add_lt _ _ _ _ hvalue ih

/-- Packing behind a word shifts it by the width of the format and adds the number packed. -/
theorem toNat_pack (format : Format) (values : List UInt64) (word : UInt64)
    (hfits : format.Fits values)
    (hword : word.toNat * 2 ^ width format + number format values < 2 ^ 64) :
    (Image.pack word format values).toNat =
      word.toNat * 2 ^ width format + number format values := by
  induction hfits generalizing word with
  | nil => simp [Image.pack, width, number]
  | @cons part value rest values hvalue hrest ih =>
    have hsplit : word.toNat * 2 ^ width (part :: rest) + number (part :: rest) (value :: values)
        = (word.toNat * 2 ^ part.width + value.toNat) * 2 ^ width rest + number rest values := by
      rw [number, width, Nat.pow_add]
      ring
    rw [hsplit] at hword ⊢
    -- what is packed first only moves up, so it has room if the whole has
    have hsmall : word.toNat * 2 ^ part.width + value.toNat < 2 ^ 64 :=
      calc
        _ ≤ (word.toNat * 2 ^ part.width + value.toNat) * 2 ^ width rest :=
          Nat.le_mul_of_pos_right _ (Nat.two_pow_pos _)
        _ ≤ _ := Nat.le_add_right _ _
        _ < _ := hword
    have hpacked := Word.toNat_shl_or word value part.width hvalue hsmall
    rw [Image.pack, ih _ (by rw [hpacked]; exact hword), hpacked]

theorem toNat_pack_zero (format : Format) (values : List UInt64) (hfits : format.Fits values)
    (hwidth : width format ≤ 64) :
    (Image.pack 0 format values).toNat = number format values := by
  have hlt : number format values < 2 ^ 64 :=
    lt_of_lt_of_le (number_lt format values hfits) (Nat.pow_le_pow_right (by omega) hwidth)
  have hpack := toNat_pack format values 0 hfits (by simpa using hlt)
  simpa using hpack

/-- The digit of a number that a part in front of `rest` holds. -/
def digit (n : Nat) (part : Part) (rest : Format) : Nat :=
  n / 2 ^ width rest % 2 ^ part.width

theorem toNat_field (word : UInt64) (part : Part) (rest : Format) (h : width rest ≤ 64) :
    (Word.shr word (offset rest) &&& Word.lowMask part.width).toNat =
      digit word.toNat part rest := by
  rw [Word.toNat_and_lowMask, Word.toNat_shr, offset_eq rest h]
  rfl

/-- Every field fits its slot. -/
theorem fields_fit (word : UInt64) (format : Format) :
    Fits format.slots (fields word format) := by
  induction format with
  | nil => exact .nil
  | cons part rest ih =>
    by_cases hslot : part.isSlot = true
    · rw [fields, if_pos hslot, slots, List.filter_cons_of_pos hslot]
      refine .cons ?_ ih
      rw [Word.toNat_and_lowMask]
      exact Nat.mod_lt _ (Nat.two_pow_pos _)
    · rw [fields, if_neg hslot, slots, List.filter_cons_of_neg hslot]
      exact ih

/-- Constants fit as well, so values that fit the slots make all parts fit. -/
theorem fits_fill (format : Format) (values : List UInt64) (hformat : format.WellFormed)
    (h : Fits format.slots values) : format.Fits (fill format values) := by
  induction format generalizing values with
  | nil => exact .nil
  | cons part rest ih =>
    obtain ⟨hpart, hrest⟩ := List.forall_mem_cons.mp hformat
    by_cases hslot : part.isSlot = true
    · rw [slots, List.filter_cons_of_pos hslot] at h
      cases h with
      | cons hvalue hvalues =>
        rw [fill_of_slot part rest _ _ hslot]
        exact .cons hvalue (ih _ hrest hvalues)
    · rw [slots, List.filter_cons_of_neg hslot] at h
      cases part with
      | typed | immediate | extra => exact absurd rfl hslot
      | constant partWidth bits =>
        exact .cons (hpart.constant_fits partWidth bits rfl) (ih _ hrest h)

/-- The digits of the constant parts are their bits. -/
def Agrees (n : Nat) : Format → Prop
  | [] => True
  | .constant width bits :: rest =>
    digit n (.constant width bits) rest = bits.toNat ∧ Agrees n rest
  | _ :: rest => Agrees n rest

theorem agrees_of_slot (n : Nat) (part : Part) (rest : Format) (h : part.isSlot = true) :
    Agrees n (part :: rest) ↔ Agrees n rest := by
  cases part with
  | constant => cases h
  | typed | immediate | extra => rfl

theorem pattern_of_slot (part : Part) (rest : Format) (h : part.isSlot = true) :
    pattern (part :: rest) = pattern rest := by
  cases part with
  | constant => cases h
  | typed | immediate | extra => rfl

/-- The pattern of a constant part in front of a format. -/
theorem pattern_constant (partWidth : Nat) (bits : UInt64) (rest : Format)
    (hpart : (Part.constant partWidth bits).WellFormed)
    (hwidth : width (.constant partWidth bits :: rest) ≤ 64)
    (hmask : (pattern rest).mask.toNat < 2 ^ width rest)
    (hbits : (pattern rest).bits.toNat < 2 ^ width rest) :
    (pattern (.constant partWidth bits :: rest)).mask.toNat
        = (2 ^ partWidth - 1) * 2 ^ width rest + (pattern rest).mask.toNat ∧
      (pattern (.constant partWidth bits :: rest)).bits.toNat
        = bits.toNat * 2 ^ width rest + (pattern rest).bits.toNat := by
  have hsum : partWidth + width rest ≤ 64 := hwidth
  have hoffset : offset rest = width rest := offset_eq rest (by omega)
  have hfits : bits.toNat < 2 ^ partWidth := hpart.constant_fits partWidth bits rfl
  have hlow : (Word.lowMask partWidth).toNat = 2 ^ partWidth - 1 :=
    Word.toNat_lowMask partWidth (by omega)
  have hpos := Nat.two_pow_pos partWidth
  -- mask and bits are both a constant above the pattern of the rest
  have hroom (a b : Nat) (ha : a < 2 ^ partWidth) (hb : b < 2 ^ width rest) :
      a * 2 ^ width rest + b < 2 ^ 64 :=
    lt_of_lt_of_le (mul_two_pow_add_lt a b _ _ ha hb) (Nat.pow_le_pow_right (by omega) hsum)
  constructor
  · rw [pattern, hoffset, Word.toNat_shl_or _ _ _ hmask (hroom _ _ (by omega) hmask), hlow]
  · rw [pattern, hoffset, Word.toNat_shl_or _ _ _ hbits (hroom _ _ hfits hbits)]

theorem pattern_lt (format : Format) (hformat : format.WellFormed) (hwidth : width format ≤ 64) :
    (pattern format).mask.toNat < 2 ^ width format ∧
      (pattern format).bits.toNat < 2 ^ width format := by
  induction format with
  | nil => decide
  | cons part rest ih =>
    have hle : width rest ≤ width (part :: rest) := Nat.le_add_left _ _
    obtain ⟨hpart, hrest⟩ := List.forall_mem_cons.mp hformat
    obtain ⟨hmask, hbits⟩ := ih hrest (by omega)
    by_cases hslot : part.isSlot = true
    · have hpow : 2 ^ width rest ≤ 2 ^ width (part :: rest) :=
        Nat.pow_le_pow_right (by omega) hle
      rw [pattern_of_slot part rest hslot]
      exact ⟨lt_of_lt_of_le hmask hpow, lt_of_lt_of_le hbits hpow⟩
    · cases part with
      | typed | immediate | extra => exact absurd rfl hslot
      | constant partWidth bits =>
        have hfits : bits.toNat < 2 ^ partWidth := hpart.constant_fits partWidth bits rfl
        have hpos := Nat.two_pow_pos partWidth
        obtain ⟨hm, hb⟩ := pattern_constant partWidth bits rest hpart hwidth hmask hbits
        rw [hm, hb]
        exact ⟨mul_two_pow_add_lt _ _ _ _ (Nat.sub_lt hpos Nat.one_pos) hmask,
          mul_two_pow_add_lt _ _ _ _ hfits hbits⟩

/-- Comparing with a mask in two steps, above and below a bit. -/
theorem and_eq_iff (n high low high' low' k : Nat) (hlow : low < 2 ^ k) (hlow' : low' < 2 ^ k) :
    n &&& (high * 2 ^ k + low) = high' * 2 ^ k + low' ↔
      n / 2 ^ k &&& high = high' ∧ n &&& low = low' := by
  have hpos := Nat.two_pow_pos k
  have hdiv (a b : Nat) (hb : b < 2 ^ k) : (a * 2 ^ k + b) / 2 ^ k = a := by
    rw [Nat.mul_comm, Nat.mul_add_div hpos, Nat.div_eq_of_lt hb, Nat.add_zero]
  have hmod (a b : Nat) (hb : b < 2 ^ k) : (a * 2 ^ k + b) % 2 ^ k = b := by
    rw [Nat.mul_comm, Nat.mul_add_mod, Nat.mod_eq_of_lt hb]
  have hsmall : (n &&& low) % 2 ^ k = n &&& low :=
    Nat.mod_eq_of_lt (lt_of_le_of_lt Nat.and_le_right hlow)
  -- a bitwise and can be taken apart at any bit, as division and remainder
  have hlowAnd : (n &&& (high * 2 ^ k + low)) % 2 ^ k = n &&& low := by
    rw [← hsmall, Nat.and_mod_two_pow, Nat.and_mod_two_pow, hmod high low hlow,
      Nat.mod_eq_of_lt hlow]
  have hhighAnd : (n &&& (high * 2 ^ k + low)) / 2 ^ k = n / 2 ^ k &&& high := by
    rw [Nat.and_div_two_pow, hdiv high low hlow]
  constructor
  · intro h
    rw [h, hdiv high' low' hlow'] at hhighAnd
    rw [h, hmod high' low' hlow'] at hlowAnd
    exact ⟨hhighAnd.symm, hlowAnd.symm⟩
  · rintro ⟨hh, hl⟩
    rw [← Nat.div_add_mod' (n &&& (high * 2 ^ k + low)) (2 ^ k), hhighAnd, hlowAnd, hh, hl]

theorem and_pattern_eq_iff (format : Format) (n : Nat) (hformat : format.WellFormed)
    (hwidth : width format ≤ 64) :
    n &&& (pattern format).mask.toNat = (pattern format).bits.toNat ↔ Agrees n format := by
  induction format with
  | nil => exact ⟨fun _ => trivial, fun _ => Nat.and_zero n⟩
  | cons part rest ih =>
    have hle : width rest ≤ width (part :: rest) := Nat.le_add_left _ _
    obtain ⟨hpart, hrest⟩ := List.forall_mem_cons.mp hformat
    have hih := ih hrest (by omega)
    by_cases hslot : part.isSlot = true
    · rw [pattern_of_slot part rest hslot, agrees_of_slot n part rest hslot]
      exact hih
    · cases part with
      | typed | immediate | extra => exact absurd rfl hslot
      | constant partWidth bits =>
        obtain ⟨hmask, hbits⟩ := pattern_lt rest hrest (by omega)
        obtain ⟨hm, hb⟩ := pattern_constant partWidth bits rest hpart hwidth hmask hbits
        rw [hm, hb, and_eq_iff _ _ _ _ _ _ hmask hbits, Nat.and_two_pow_sub_one_eq_mod, hih]
        rfl

/-- A word has the constant bits of a format exactly when its digits agree with them. -/
theorem admits_iff (format : Format) (word : UInt64) (hformat : format.WellFormed)
    (hwidth : width format ≤ 64) : format.admits word = true ↔ Agrees word.toNat format := by
  rw [admits, beq_iff_eq, ← UInt64.toNat_inj, UInt64.toNat_and]
  exact and_pattern_eq_iff format word.toNat hformat hwidth

/-- The values that a word gives to the parts of a format it agrees with. -/
theorem number_fill_fields (format : Format) (word : UInt64) (hwidth : width format ≤ 64)
    (h : Agrees word.toNat format) :
    number format (fill format (fields word format)) = word.toNat % 2 ^ width format := by
  induction format with
  | nil => exact (Nat.mod_one _).symm
  | cons part rest ih =>
    have hle : width rest ≤ width (part :: rest) := Nat.le_add_left _ _
    have hsplit : word.toNat % 2 ^ width (part :: rest) =
        digit word.toNat part rest * 2 ^ width rest + word.toNat % 2 ^ width rest := by
      rw [width, Nat.add_comm, Nat.pow_add, Nat.mod_mul, digit]
      ring
    have hfield := toNat_field word part rest (by omega)
    by_cases hslot : part.isSlot = true
    · have hrest := ih (by omega) ((agrees_of_slot _ part rest hslot).mp h)
      rw [fields, if_pos hslot, hsplit, ← hrest, ← hfield]
      cases part with
      | constant => cases hslot
      | typed | immediate | extra => rfl
    · cases part with
      | typed | immediate | extra => exact absurd rfl hslot
      | constant partWidth bits =>
        rw [fields, if_neg hslot, fill, number, hsplit, ih (by omega) h.2, h.1]

/-- Packing the constants and the fields of a word gives the word. -/
theorem pack_fill_fields (format : Format) (word : UInt64) (hformat : format.WellFormed)
    (hwidth : width format ≤ 64) (hword : word.toNat < 2 ^ width format)
    (hadmits : format.admits word = true) :
    Image.pack 0 format (fill format (fields word format)) = word := by
  have hagrees := (admits_iff format word hformat hwidth).mp hadmits
  have hfits := fits_fill format _ hformat (fields_fit word format)
  apply UInt64.toNat_inj.mp
  rw [toNat_pack_zero _ _ hfits hwidth, number_fill_fields format word hwidth hagrees,
    Nat.mod_eq_of_lt hword]

/-- A first value packed becomes the low digit of what stands above the rest. -/
theorem digit_of_number (n above : Nat) (part : Part) (rest : Format) (value : UInt64)
    (values : List UInt64) (hvalue : value.toNat < 2 ^ part.width) (hvalues : rest.Fits values)
    (hn : n = above * 2 ^ width (part :: rest) + number (part :: rest) (value :: values)) :
    n = (above * 2 ^ part.width + value.toNat) * 2 ^ width rest + number rest values ∧
      digit n part rest = value.toNat := by
  have hsplit : n =
      (above * 2 ^ part.width + value.toNat) * 2 ^ width rest + number rest values := by
    rw [hn, number, width, Nat.pow_add]
    ring
  refine ⟨hsplit, ?_⟩
  rw [digit, hsplit, Nat.mul_comm _ (2 ^ width rest), Nat.mul_add_div (Nat.two_pow_pos _),
    Nat.div_eq_of_lt (number_lt rest values hvalues), Nat.add_zero, Nat.mul_comm above,
    Nat.mul_add_mod, Nat.mod_eq_of_lt hvalue]

/-- The parts of a format have the digits of what was packed, whatever stands above it. -/
theorem agrees_number (format : Format) (values : List UInt64) (word : UInt64) (above : Nat)
    (hformat : format.WellFormed) (hwidth : width format ≤ 64) (hfits : Fits format.slots values)
    (hword : word.toNat = above * 2 ^ width format + number format (fill format values)) :
    Agrees word.toNat format ∧ fields word format = values := by
  -- from the front on, so that what was packed already is among what stands above
  induction format generalizing values above with
  | nil =>
    cases hfits
    exact ⟨trivial, rfl⟩
  | cons part rest ih =>
    have hle : width rest ≤ width (part :: rest) := Nat.le_add_left _ _
    obtain ⟨hpart, hrest⟩ := List.forall_mem_cons.mp hformat
    by_cases hslot : part.isSlot = true
    · rw [slots, List.filter_cons_of_pos hslot] at hfits
      cases hfits with
      | @cons _ value _ values hvalue hvalues =>
        rw [fill_of_slot part rest value values hslot] at hword
        obtain ⟨hsplit, hdigit⟩ := digit_of_number _ _ part rest value _ hvalue
          (fits_fill rest values hrest hvalues) hword
        obtain ⟨hagrees, hfields⟩ := ih values _ hrest (by omega) hvalues hsplit
        refine ⟨(agrees_of_slot _ part rest hslot).mpr hagrees, ?_⟩
        have hhead : Word.shr word (offset rest) &&& Word.lowMask part.width = value :=
          UInt64.toNat_inj.mp ((toNat_field word part rest (by omega)).trans hdigit)
        rw [fields, if_pos hslot, hhead, hfields]
    · rw [slots, List.filter_cons_of_neg hslot] at hfits
      cases part with
      | typed | immediate | extra => exact absurd rfl hslot
      | constant partWidth bits =>
        obtain ⟨hsplit, hdigit⟩ := digit_of_number _ _ (.constant partWidth bits) rest bits _
          (hpart.constant_fits partWidth bits rfl) (fits_fill rest values hrest hfits) hword
        obtain ⟨hagrees, hfields⟩ := ih values _ hrest (by omega) hfits hsplit
        exact ⟨⟨hdigit, hagrees⟩, hfields⟩

/-- A packed word has the constant bits of its format and the fields that were packed. -/
theorem admits_pack (format : Format) (values : List UInt64) (hformat : format.WellFormed)
    (hwidth : width format ≤ 64) (hfits : Fits format.slots values) :
    format.admits (Image.pack 0 format (fill format values)) = true ∧
      fields (Image.pack 0 format (fill format values)) format = values := by
  have hpack := toNat_pack_zero _ _ (fits_fill format values hformat hfits) hwidth
  obtain ⟨hagrees, hfields⟩ := agrees_number format values
    (Image.pack 0 format (fill format values)) 0 hformat hwidth hfits
    (by rw [hpack, Nat.zero_mul, Nat.zero_add])
  exact ⟨(admits_iff format _ hformat hwidth).mpr hagrees, hfields⟩

end Format

end WordAsm
