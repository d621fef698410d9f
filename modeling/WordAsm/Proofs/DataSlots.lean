import WordAsm.Proofs.InstructionEncoding
import WordAsm.Proofs.LayoutSpecification

/-! What data directives put into their slots. A number fills one slot and a string one for each of
its characters; whatever is too big for a slot is cut down to its low bits, and each slot can be
read back from its place. A directive fails exactly on arguments that are neither strings nor
numbers that can be read. -/

namespace WordAsm

/-- The numbers that an argument has for the slots of a data directive: its value, or the codes of
its characters. -/
def Directive.numbers (arg : Token) : List Nat :=
  if arg.kind = .string then arg.text.toList.map Char.toNat
  else arg.value.toOption.toList.map UInt64.toNat

theorem Directive.slotSize?_eq_some_iff (mnemonic : String) (slotSize : Nat) :
    slotSize? mnemonic = some slotSize ↔
      (mnemonic, slotSize) ∈ [("db", 1), ("dw", 2), ("dd", 4), ("dq", 8)] := by
  unfold slotSize?
  split_ifs <;> simp_all [eq_comm]

/-- Behind whole blocks of one length stand the blocks that follow. -/
theorem drop_flatMap_of_forall {α β : Type} (f : α → List β) (count : Nat)
    (h : ∀ a, (f a).length = count) (list : List α) (k : Nat) :
    (list.flatMap f).drop (k * count) = (list.drop k).flatMap f := by
  induction list generalizing k with
  | nil => simp
  | cons a list ih =>
    cases k with
    | zero => simp
    | succ k =>
      have hskip : (k + 1) * count = (f a).length + k * count := by
        rw [h a, Nat.succ_mul, Nat.add_comm]
      rw [List.flatMap_cons, List.drop_succ_cons, hskip, List.drop_length_add_append, ih]

namespace Word

/-- A slot holds its value modulo the range of the slot. -/
theorem toNat_decode_slot (slotSize : Nat) (hsize : slotSize ≤ 8) (values : List UInt64)
    (k : Nat) (value : UInt64) (h : values[k]? = some value) :
    (decode (8 * slotSize) ((values.flatMap (toBytes slotSize)).drop (k * slotSize))).toNat =
      value.toNat % 2 ^ (8 * slotSize) := by
  obtain ⟨hk, hvalue⟩ := List.getElem?_eq_some_iff.mp h
  have hlength : (toBytes slotSize value).length = 8 * slotSize / 8 := by
    simp
  calc (decode (8 * slotSize) ((values.flatMap (toBytes slotSize)).drop (k * slotSize))).toNat
      = (decode (8 * slotSize) (toBytes slotSize value ++
          (values.drop (k + 1)).flatMap (toBytes slotSize))).toNat := by
        rw [drop_flatMap_of_forall _ slotSize (toBytes_length slotSize),
          List.drop_eq_getElem_cons hk, hvalue, List.flatMap_cons]
    _ = (decode (8 * slotSize) (toBytes slotSize value)).toNat := by
        rw [decode_append _ _ _ hlength]
    _ = ofBytes (toBytes slotSize value) := toNat_decode _ _ (by omega) hlength
    _ = value.toNat % 2 ^ (8 * slotSize) := by
        simp [Nat.pow_mul]

end Word

namespace Image

/-- An argument has values for slots if it is a string or a number that can be read. -/
theorem exists_slotValues_iff (mnemonic : String) (arg : Token) :
    (∃ values, slotValues mnemonic arg = .ok values) ↔
      arg.kind = .string ∨ arg.kind = .number ∧ ∃ value, arg.value = .ok value := by
  simp only [slotValues_eq_ok_iff]
  constructor
  · rintro ⟨values, ⟨hkind, value, hvalue, -⟩ | ⟨hkind, -⟩⟩
    · exact .inr ⟨hkind, value, hvalue⟩
    · exact .inl hkind
  · rintro (hkind | ⟨hkind, value, hvalue⟩)
    · exact ⟨_, .inr ⟨hkind, rfl⟩⟩
    · exact ⟨_, .inl ⟨hkind, value, hvalue, rfl⟩⟩

theorem toNat_slotValues (mnemonic : String) (arg : Token) (values : List UInt64)
    (h : slotValues mnemonic arg = .ok values) :
    values.map UInt64.toNat = Directive.numbers arg := by
  rcases (slotValues_eq_ok_iff ..).mp h with ⟨hkind, value, hvalue, rfl⟩ | ⟨hkind, rfl⟩
  · simp [Directive.numbers, hkind, hvalue, Except.toOption]
  · -- the codes of characters are words
    have hcode (c : Char) : (UInt64.ofNat c.toNat).toNat = c.toNat := by
      apply UInt64.toNat_ofNat_of_lt'
      have hlt := Text.toNat_lt_of_char c
      have hsize : UInt64.size = 18446744073709551616 := rfl
      change c.val.toNat < UInt64.size
      omega
    simp [Directive.numbers, hkind, hcode]

theorem toNat_flatten_slotValues (mnemonic : String) (args : List Token)
    (values : List (List UInt64))
    (h : List.Forall₂ (fun arg value => slotValues mnemonic arg = .ok value) args values) :
    values.flatten.map UInt64.toNat = args.flatMap Directive.numbers := by
  induction h with
  | nil => rfl
  | cons hfirst _ ih =>
    rw [List.flatten_cons, List.map_append, List.flatMap_cons, ih,
      toNat_slotValues _ _ _ hfirst]

theorem exists_dataBytes_iff (slotSize : Nat) (statement : Statement) :
    (∃ bytes, dataBytes slotSize statement = .ok bytes) ↔
      ∀ arg ∈ statement.args, arg.kind = .string ∨
        arg.kind = .number ∧ ∃ value, arg.value = .ok value := by
  simp only [← exists_slotValues_iff statement.mnemonic, ← exists_forall₂_iff,
    dataBytes_eq_ok_iff]
  constructor
  · rintro ⟨bytes, values, hvalues, -⟩
    exact ⟨values, hvalues⟩
  · rintro ⟨values, hvalues⟩
    exact ⟨_, values, hvalues, rfl⟩

end Image

/-- A data directive succeeds exactly on strings and on numbers that can be read. Its bytes are one
slot for each number and for each character, in order; the value in a slot is read back from it
modulo the range of the slot, and the bytes are appended to the image. -/
theorem data_fills_slots (statement : Statement) (slotSize : Nat)
    (h : (statement.mnemonic, slotSize) ∈ [("db", 1), ("dw", 2), ("dd", 4), ("dq", 8)]) :
    ((∃ bytes, Image.dataBytes slotSize statement = .ok bytes) ↔
      ∀ arg ∈ statement.args, arg.kind = .string ∨
        arg.kind = .number ∧ ∃ value, arg.value = .ok value) ∧
    ∀ bytes, Image.dataBytes slotSize statement = .ok bytes →
      bytes.length = (statement.args.flatMap Directive.numbers).length * slotSize ∧
      (∀ (k number : Nat), (statement.args.flatMap Directive.numbers)[k]? = some number →
        (Word.decode (8 * slotSize) (bytes.drop (k * slotSize))).toNat =
          number % 2 ^ (8 * slotSize)) ∧
      (statement.kind ≠ .label → ∀ set front image, Image.generate set front = .ok image →
        Image.generate set (front ++ [statement]) = .ok (image ++ bytes)) := by
  have hslot := (Directive.slotSize?_eq_some_iff ..).mpr h
  have hsize : slotSize ≤ 8 := by
    have hsizes : slotSize ∈ [1, 2, 4, 8] := List.mem_map_of_mem (f := Prod.snd) h
    simp only [List.mem_cons, List.not_mem_nil, or_false] at hsizes
    omega
  refine ⟨Image.exists_dataBytes_iff slotSize statement, ?_⟩
  intro bytes hbytes
  obtain ⟨values, hvalues, hflat⟩ := (Image.dataBytes_eq_ok_iff ..).mp hbytes
  have hnumbers := Image.toNat_flatten_slotValues _ _ _ hvalues
  refine ⟨?_, ?_, ?_⟩
  · rw [hflat, length_flatMap_of_forall _ slotSize _ fun value _ => Word.toBytes_length _ value,
      ← hnumbers, List.length_map]
  · intro k number hnumber
    rw [← hnumbers, List.getElem?_map] at hnumber
    obtain ⟨value, hvalue, rfl⟩ := Option.map_eq_some_iff.mp hnumber
    rw [hflat]
    exact Word.toNat_decode_slot slotSize hsize values.flatten k value hvalue
  · intro hkind set front image hfront
    apply Image.generate_concat set front statement image bytes hfront
    rw [Image.statementBytes_of_data set statement slotSize hkind hslot, hbytes]

/-- Bytes of a number and of a string, neither of which fits its slots. -/
def wideBytes : Statement :=
  .unplaced .instruction (.plain .identifier "DB" (.start ""))
    [.ofValue 0x1ff (.start ""), .plain .string "a€" (.start "")]

/-- The slots hold the low bytes of the number and of the code of the last character. -/
theorem wideBytes_filled :
    Image.dataBytes 1 wideBytes = .ok [0xff, 0x61, 0xac] ∧
      (Word.decode 8 [0xff, 0x61, 0xac]).toNat = 0x1ff % 2 ^ 8 ∧
      (Word.decode 8 ([0xff, 0x61, 0xac].drop 2)).toNat = 0x20ac % 2 ^ 8 := by
  have hbytes : Image.dataBytes 1 wideBytes = .ok [0xff, 0x61, 0xac] := by
    decide +kernel
  obtain ⟨-, hfilled⟩ := data_fills_slots wideBytes 1 (by decide +kernel)
  obtain ⟨-, hslots, -⟩ := hfilled _ hbytes
  exact ⟨hbytes, hslots 0 0x1ff (by decide +kernel), hslots 2 0x20ac (by decide +kernel)⟩

end WordAsm
