import WordAsm.Proofs.Numerals
import WordAsm.Proofs.TextOrder
import WordAsm.Proofs.ValidFormats
import WordAsm.Proofs.Words

/-! Formats and their texts. A format is written in ASCII characters, part by part, with a blank
between two parts. Read again, the binary digits of a constant make up one run of its width, which
the blank ends, so constants that stand next to one another stay apart; a slot is read between its
braces. What is read from any text is made of parts that can be written in this way. -/

namespace WordAsm

namespace Text

/-- An ASCII character is one byte, its code. -/
theorem utf8EncodeChar_of_ascii (c : Char) (h : c.toNat < 0x80) :
    String.utf8EncodeChar c = [UInt8.ofNat c.toNat] := by
  have hcode : c.val.toNat ≤ 0x7f := Nat.le_of_lt_succ h
  rw [utf8EncodeChar_eq, leadByte, continuations, if_pos hcode]
  simp [followBytes]

theorem encode_cons_of_ascii (c : Char) (text : List Char) (h : c.toNat < 0x80) :
    encode (c :: text) = UInt8.ofNat c.toNat :: encode text := by
  rw [encode, List.flatMap_cons, utf8EncodeChar_of_ascii c h]
  rfl

theorem encode_append (front rest : List Char) :
    encode (front ++ rest) = encode front ++ encode rest :=
  List.flatMap_append

/-- A byte of an ASCII text is the code of one of its characters. -/
theorem mem_encode_of_ascii (text : List Char) (h : ∀ c ∈ text, c.toNat < 0x80) (byte : UInt8)
    (hbyte : byte ∈ encode text) : ∃ c ∈ text, byte.toNat = c.toNat := by
  obtain ⟨c, hc, hbyte⟩ := List.mem_flatMap.mp hbyte
  have hascii := h c hc
  rw [utf8EncodeChar_of_ascii c hascii, List.mem_singleton] at hbyte
  refine ⟨c, hc, ?_⟩
  rw [hbyte]
  exact UInt8.toNat_ofNat_of_lt' (by change c.toNat < 256; omega)

/-- The bytes of ASCII characters are read as these characters. -/
theorem pieces_encode_of_ascii (text : List Char) (h : ∀ c ∈ text, c.toNat < 0x80) :
    pieces (encode text) = text.map .char := by
  induction text with
  | nil => rfl
  | cons c text ih =>
    obtain ⟨hc, htext⟩ := List.forall_mem_cons.mp h
    have hbyte : (UInt8.ofNat c.toNat).toNat = c.toNat :=
      UInt8.toNat_ofNat_of_lt' (by change c.toNat < 256; omega)
    have hlead : UInt8.ofNat c.toNat < 0x80 := by
      rw [UInt8.lt_iff_toNat_lt, hbyte]
      exact hc
    rw [encode_cons_of_ascii c text hc, pieces, piecesAfter, lead?, if_pos hlead, hbyte,
      Char.ofNat_toNat, List.map_cons, ← ih htext]
    rfl

/-- A number below a power of the base has at most as many digits as the power. -/
theorem length_digits_le (base n count : Nat) (hbase : 2 ≤ base) (hcount : 1 ≤ count)
    (h : n < base ^ count) : (digits base n).length ≤ count := by
  induction count, hcount using Nat.le_induction generalizing n with
  | base =>
    rw [Nat.pow_one] at h
    rw [digits_of_lt base n h, List.length_singleton]
  | succ count hcount ih =>
    by_cases hn : n < base
    · rw [digits_of_lt base n hn, List.length_singleton]
      omega
    · have hdiv : n / base < base ^ count := by
        apply Nat.div_lt_of_lt_mul
        rwa [Nat.mul_comm, ← Nat.pow_succ]
      rw [digits_of_le base n hbase (by omega), List.length_append, List.length_singleton]
      exact Nat.succ_le_succ (ih _ hdiv)

theorem readDigits_cons_eq_ok_iff (base value n : Nat) (c : Char) (rest : List Char) :
    readDigits base value (c :: rest) = .ok n ↔
      ∃ d, digitValue? c = some d ∧ d < base ∧ value * base + d < Word.modulus ∧
        readDigits base (value * base + d) rest = .ok n := by
  rw [readDigits]
  cases digitValue? c with
  | none => simp
  | some d =>
    by_cases hd : base ≤ d
    · simp [hd]
    · by_cases hrange : Word.modulus ≤ value * base + d
      · simp [hd, hrange]
      · simp [hd, hrange, Nat.lt_of_not_le hd, Nat.lt_of_not_le hrange]

/-- The binary digits are the characters zero and one. -/
theorem byte_of_binary (c : Char) (d : Nat) (h : digitValue? c = some d) (hd : d < 2) :
    c.toNat < 0x80 ∧ (UInt8.ofNat c.toNat = 0x30 ∨ UInt8.ofNat c.toNat = 0x31) ∧
      (UInt8.ofNat c.toNat - 0x30).toUInt64.toNat = d := by
  have hcode : c.toNat = 0x30 + d := by
    unfold digitValue? at h
    dsimp only at h
    -- letters are digits from ten on, so the character is one of the first two figures
    split_ifs at h with hfigure
    · rw [Bool.and_eq_true, decide_eq_true_eq, decide_eq_true_eq] at hfigure
      have := Option.some.inj h
      omega
    · have := Option.some.inj h
      omega
    · have := Option.some.inj h
      omega
  obtain rfl | rfl : d = 0 ∨ d = 1 := by omega
  · rw [hcode]
    decide
  · rw [hcode]
    decide

end Text

open WordAsm.Text

namespace Part

theorem toList_binary (width : Nat) (bits : UInt64) (hwidth : width ≤ 64) :
    (binary width bits).toList = (digits 2 bits.toNat).leftpad width '0' := by
  rw [binary, if_pos (by omega), String.toList_ofList]

theorem length_binary (width : Nat) (bits : UInt64) (hpos : 1 ≤ width) (hwidth : width ≤ 64)
    (hbits : bits.toNat < 2 ^ width) : (binary width bits).toList.length = width := by
  rw [toList_binary width bits hwidth, List.length_leftpad]
  exact Nat.max_eq_left (length_digits_le 2 _ width (Nat.le_refl 2) hpos hbits)

theorem readDigits_binary (width : Nat) (bits : UInt64) (hwidth : width ≤ 64) :
    readDigits 2 0 (binary width bits).toList = .ok bits.toNat := by
  rw [toList_binary width bits hwidth, List.leftpad, readDigits_zeros 2 _ _ (by decide)]
  exact readDigits_digits 2 bits.toNat (by decide) (by decide) bits.toNat_lt

end Part

namespace Format

/-- The text is read as the format, wherever it stands behind a complete part. -/
def Reads (text : List UInt8) (format : Format) : Prop :=
  ∀ offset, readFrom offset .nothing text = .ok format

theorem Reads.nil : Reads [] [] := by
  intro offset
  rw [readFrom]
  · rfl
  · exact nofun

/-- A blank ends a run, and what follows is read behind it. -/
theorem readFrom_blank (offset : Nat) (pending : Pending) (rest : List UInt8) (format : Format)
    (hpending : ∀ start body, pending ≠ .slot start body) (hrest : Reads rest format) :
    readFrom offset pending (0x20 :: rest) = .ok (pending.flush ++ format) := by
  rw [readFrom, if_neg (by decide), if_pos (by decide), hrest]
  · rfl
  · exact hpending

/-- Binary digits make the run in front of them longer by as many bits. -/
theorem readFrom_digits (text : List Char) (offset width value : Nat) (bits : UInt64)
    (rest : List UInt8) (format : Format) (hread : readDigits 2 bits.toNat text = .ok value)
    (hwidth : width + text.length ≤ 64)
    (hrest : ∀ offset, readFrom offset (.run (width + text.length) (UInt64.ofNat value)) rest =
      .ok format) :
    readFrom offset (.run width bits) (encode text ++ rest) = .ok format := by
  induction text generalizing offset width bits with
  | nil =>
    cases hread
    rw [UInt64.ofNat_toNat] at hrest
    exact hrest offset
  | cons c text ih =>
    obtain ⟨d, hvalue, hd, hrange, hread⟩ := (readDigits_cons_eq_ok_iff ..).mp hread
    obtain ⟨hascii, hbyte, hbit⟩ := byte_of_binary c d hvalue hd
    rw [List.length_cons] at hwidth hrest
    -- the digit is shifted in, and the number read so far has room for it
    have hbits : (bits <<< 1 ||| (UInt8.ofNat c.toNat - 0x30).toUInt64).toNat =
        bits.toNat * 2 + d := by
      rw [← hbit] at hd hrange ⊢
      exact Word.toNat_shl_or bits _ 1 hd hrange
    rw [encode_cons_of_ascii c text hascii, List.cons_append, readFrom, if_pos hbyte]
    · dsimp only
      rw [if_neg (by omega)]
      apply ih _ (width + 1)
      · rw [hbits]
        exact hread
      · omega
      · rwa [Nat.add_assoc, Nat.add_comm 1]
    · exact nofun

/-- Digits with nothing in front of them begin an empty run. -/
theorem readFrom_nothing_digits (c : Char) (text : List Char) (offset value : Nat)
    (rest : List UInt8) (hread : readDigits 2 0 (c :: text) = .ok value) :
    readFrom offset .nothing (encode (c :: text) ++ rest) =
      readFrom offset (.run 0 0) (encode (c :: text) ++ rest) := by
  obtain ⟨d, hvalue, hd, -⟩ := (readDigits_cons_eq_ok_iff ..).mp hread
  obtain ⟨hascii, hbyte, -⟩ := byte_of_binary c d hvalue hd
  rw [encode_cons_of_ascii c text hascii, List.cons_append, readFrom, if_pos hbyte, readFrom,
    if_pos hbyte]
  · simp
  · exact nofun
  · exact nofun

theorem readFrom_slot (text : List UInt8) (offset start : Nat) (body : List UInt8) (part : Part)
    (rest : List UInt8) (format : Format) (htext : 0x7d ∉ text)
    (hpart : readSlot (body ++ text) = .ok part) (hrest : Reads rest format) :
    readFrom offset (.slot start body) (text ++ 0x7d :: rest) = .ok (part :: format) := by
  induction text generalizing offset body with
  | nil =>
    rw [List.append_nil] at hpart
    rw [List.nil_append, readFrom, if_pos rfl, hpart]
    change (readFrom (offset + 1) .nothing rest >>= _) = _
    rw [hrest]
    rfl
  | cons byte text ih =>
    rw [List.mem_cons, not_or] at htext
    rw [List.cons_append, readFrom, if_neg (Ne.symm htext.1)]
    apply ih _ _ htext.2
    rwa [List.append_assoc, List.singleton_append]

/-- What stands between braces is read as a slot. -/
theorem Reads.slot (text : List UInt8) (part : Part) (rest : List UInt8) (format : Format)
    (htext : 0x7d ∉ text) (hpart : readSlot text = .ok part) (hrest : Reads rest format) :
    Reads (0x7b :: text ++ 0x7d :: rest) (part :: format) := by
  intro offset
  rw [List.cons_append, readFrom, if_neg (by decide), if_neg (by decide), if_pos rfl,
    readFrom_slot text _ _ [] part rest format htext hpart hrest]
  · rfl
  · exact nofun

/-- The text ends what is pending, and what follows it is read as the format. -/
def ReadsApart (rest : List UInt8) (format : Format) : Prop :=
  rest = [] ∧ format = [] ∨ ∃ later, rest = 0x20 :: later ∧ Reads later format

theorem ReadsApart.reads (rest : List UInt8) (format : Format) (h : ReadsApart rest format) :
    Reads rest format := by
  rcases h with ⟨rfl, rfl⟩ | ⟨later, rfl, hlater⟩
  · exact Reads.nil
  · intro offset
    exact readFrom_blank offset .nothing later format nofun hlater

/-- A run ends in front of a blank or at the end of the text. -/
theorem ReadsApart.run (offset width : Nat) (bits : UInt64) (rest : List UInt8) (format : Format)
    (h : ReadsApart rest format) :
    readFrom offset (.run width bits) rest = .ok (.constant width bits :: format) := by
  rcases h with ⟨rfl, rfl⟩ | ⟨later, rfl, hlater⟩
  · rw [readFrom]
    · rfl
    · exact nofun
  · exact readFrom_blank offset (.run width bits) later format nofun hlater

theorem reads_constant (width : Nat) (bits : UInt64) (rest : List UInt8) (format : Format)
    (hpart : (Part.constant width bits).WellFormed) (hrest : ReadsApart rest format) :
    Reads (encode (Part.binary width bits).toList ++ rest) (.constant width bits :: format) := by
  have hpos : 1 ≤ width := hpart.width_pos
  have hwidth : width ≤ 64 := hpart.width_le
  have hlength := Part.length_binary width bits hpos hwidth (hpart.constant_fits width bits rfl)
  have hread := Part.readDigits_binary width bits hwidth
  intro offset
  cases htext : (Part.binary width bits).toList with
  | nil =>
    rw [htext] at hlength
    change 0 = width at hlength
    omega
  | cons c text =>
    rw [htext] at hread hlength
    rw [readFrom_nothing_digits c text offset _ rest hread]
    apply readFrom_digits (c :: text) offset 0 bits.toNat 0 rest _ hread (by omega)
    intro later
    rw [hlength, Nat.zero_add, UInt64.ofNat_toNat]
    exact hrest.run later width bits rest format

/-- A type in ASCII letters and a width in decimal digits are read as the slot of that type. -/
theorem readSlot_of_type (type : List Char) (width : Nat) (part : Part) (hne : type ≠ [])
    (htype : ∀ c ∈ type, c.toNat < 0x80 ∧ isDigit c = false) (hwidth : 1 ≤ width ∧ width ≤ 64)
    (hslot : slotOf? (type.map .char) width = some part) :
    readSlot (encode (type ++ digits 10 width)) = .ok part := by
  have hdigits : ∀ c ∈ digits 10 width, c.toNat < 0x80 ∧ isDigit c = true :=
    forall_mem_digits _ 10 width (by decide) (by decide)
  have hpieces : pieces (encode (type ++ digits 10 width)) =
      type.map .char ++ (digits 10 width).map .char := by
    rw [pieces_encode_of_ascii, List.map_append]
    intro c hc
    rcases List.mem_append.mp hc with hc | hc
    · exact (htype c hc).1
    · exact (hdigits c hc).1
  -- the width begins at the first digit, which is behind the type
  have hletters : ∀ piece ∈ type.map Piece.char, (!startsWidth piece) = true := by
    intro piece hpiece
    obtain ⟨c, hc, rfl⟩ := List.mem_map.mp hpiece
    rw [startsWidth, (htype c hc).2]
    rfl
  obtain ⟨first, others, hfirst⟩ := List.exists_cons_of_ne_nil (digits_ne_nil 10 width)
  have hstop : (!startsWidth (.char first)) = false := by
    rw [startsWidth, (hdigits first (hfirst ▸ List.mem_cons_self)).2]
    rfl
  have htake : (pieces (encode (type ++ digits 10 width))).takeWhile (!startsWidth ·) =
      type.map .char := by
    rw [hpieces, List.takeWhile_append_of_pos hletters, hfirst, List.map_cons,
      List.takeWhile_cons_of_neg (by rw [hstop]; exact Bool.false_ne_true), List.append_nil]
  have hdrop : (pieces (encode (type ++ digits 10 width))).dropWhile (!startsWidth ·) =
      (digits 10 width).map .char := by
    rw [hpieces, List.dropWhile_append_of_pos hletters, hfirst, List.map_cons,
      List.dropWhile_cons_of_neg (by rw [hstop]; exact Bool.false_ne_true)]
  have hvalue : slotWidth? (digits 10 width) = some width := by
    have hrange : width < Word.modulus := Nat.lt_of_le_of_lt hwidth.2 (by decide)
    rw [slotWidth?, readDigits_digits 10 width (by decide) (by decide) hrange]
    exact if_pos hwidth
  have hchars : ((digits 10 width).map Piece.char).map Piece.toChar = digits 10 width := by
    rw [List.map_map]
    exact List.map_id _
  have hgiven : ¬ ((type.map Piece.char).isEmpty || ((digits 10 width).map Piece.char).isEmpty) =
      true := by
    simpa using ⟨hne, digits_ne_nil 10 width⟩
  rw [readSlot, htake, hdrop, if_neg hgiven, hchars, hvalue]
  simp only [hslot]

/-- The text of a slot is its type and its width between braces. -/
theorem reads_slot (type : List Char) (width : Nat) (part : Part) (rest : List UInt8)
    (format : Format)
    (htype : (type.all fun c => decide (c.toNat < 0x7d) && !isDigit c) = true)
    (hwidth : 1 ≤ width ∧ width ≤ 64) (hslot : slotOf? (type.map .char) width = some part)
    (hrest : Reads rest format) :
    Reads (encode ('\x7b' :: (type ++ (digits 10 width ++ ['\x7d']))) ++ rest)
      (part :: format) := by
  have htype : ∀ c ∈ type, c.toNat < 0x7d ∧ isDigit c = false := by
    simpa using htype
  have hne : type ≠ [] := by
    rintro rfl
    cases hslot
  have hdigits : ∀ c ∈ digits 10 width, c.toNat < 0x7d :=
    forall_mem_digits _ 10 width (by decide) (by decide)
  have hascii : ∀ c ∈ type ++ digits 10 width, c.toNat < 0x7d := by
    intro c hc
    rcases List.mem_append.mp hc with hc | hc
    · exact (htype c hc).1
    · exact hdigits c hc
  have hbytes : encode ('\x7b' :: (type ++ (digits 10 width ++ ['\x7d']))) ++ rest =
      0x7b :: encode (type ++ digits 10 width) ++ 0x7d :: rest := by
    rw [encode_cons_of_ascii _ _ (by decide), ← List.append_assoc type, encode_append]
    simp [encode, utf8EncodeChar_of_ascii]
  rw [hbytes]
  apply Reads.slot _ part rest format ?_ ?_ hrest
  · -- no character in front of the closing brace is one
    intro hbrace
    obtain ⟨c, hc, hcode⟩ := mem_encode_of_ascii _ (fun c hc => by
      have := hascii c hc
      omega) _ hbrace
    have := hascii c hc
    rw [← hcode] at this
    exact absurd this (by decide)
  · apply readSlot_of_type type width part hne _ hwidth hslot
    intro c hc
    have := (htype c hc).1
    exact ⟨by omega, (htype c hc).2⟩

/-- A part is read back from its text. -/
theorem reads_part (part : Part) (rest : List UInt8) (format : Format) (hpart : part.WellFormed)
    (hrest : ReadsApart rest format) :
    Reads (encode part.render.toList ++ rest) (part :: format) := by
  have hbounds : 1 ≤ part.width ∧ part.width ≤ 64 := ⟨hpart.width_pos, hpart.width_le⟩
  cases part with
  | constant width bits => exact reads_constant width bits rest format hpart hrest
  | typed cls width =>
    -- the three classes with slots have one letter each
    have htext : (Part.typed cls width).render.toList =
        '\x7b' :: ([cls.letter] ++ (digits 10 width ++ ['\x7d'])) := by
      simp [Part.render, decimal]
    rw [htext]
    rcases hpart.typed_class cls width rfl with rfl | rfl | rfl
    · exact reads_slot _ width _ rest format (by decide) hbounds rfl hrest.reads
    · exact reads_slot _ width _ rest format (by decide) hbounds rfl hrest.reads
    · exact reads_slot _ width _ rest format (by decide) hbounds rfl hrest.reads
  | immediate width =>
    have htext : (Part.immediate width).render.toList =
        '\x7b' :: (['I', 'M', 'M'] ++ (digits 10 width ++ ['\x7d'])) := by
      simp [Part.render, decimal]
    rw [htext]
    exact reads_slot _ width _ rest format (by decide) hbounds rfl hrest.reads
  | extra width =>
    have htext : (Part.extra width).render.toList =
        '\x7b' :: (['E'] ++ (digits 10 width ++ ['\x7d'])) := by
      simp [Part.render, decimal]
    rw [htext]
    exact reads_slot _ width _ rest format (by decide) hbounds rfl hrest.reads

/-- The parts of a format are read back from its text, one after the other. -/
theorem reads_render (part : Part) (format : Format) (hformat : WellFormed (part :: format)) :
    Reads (encode (render (part :: format)).toList) (part :: format) := by
  induction format generalizing part with
  | nil =>
    have hread := reads_part part [] [] (hformat part List.mem_cons_self) (.inl ⟨rfl, rfl⟩)
    rwa [List.append_nil] at hread
  | cons next format ih =>
    obtain ⟨hpart, hrest⟩ := List.forall_mem_cons.mp hformat
    have htext : encode (render (part :: next :: format)).toList =
        encode part.render.toList ++ 0x20 :: encode (render (next :: format)).toList := by
      rw [render, render, List.map_cons, List.map_cons, String.intercalate_cons_cons,
        String.toList_append, String.toList_append, encode_append, encode_append,
        List.append_assoc]
      rfl
    rw [htext]
    apply reads_part part _ _ hpart
    exact .inr ⟨_, rfl, ih next hrest⟩

theorem read_ne_nil (text : List UInt8) (format : Format) (h : read text = .ok format) :
    format ≠ [] := by
  rintro rfl
  obtain ⟨parts, -, h⟩ := bind_eq_ok_iff.mp h
  cases parts with
  | nil => cases h
  | cons part parts => cases h

end Format

/-- What is read from a text is a format of well-formed parts, and every such format is read back
from the text that it is written as. -/
theorem formats_read_back :
    (∀ (text : List UInt8) (format : Format), Format.read text = .ok format →
      format ≠ [] ∧ format.WellFormed) ∧
    ∀ format : Format, format ≠ [] → format.WellFormed →
      Format.read (encode format.render.toList) = .ok format := by
  constructor
  · intro text format h
    exact ⟨Format.read_ne_nil text format h, Format.read_wellFormed text format h⟩
  · intro format hne hformat
    obtain ⟨part, parts, rfl⟩ := List.exists_cons_of_ne_nil hne
    rw [Format.read, Format.reads_render part parts hformat 0]
    rfl

/-- Two runs with a blank between them, the second of 64 bits, and slots written with leading zeros
and without blanks. -/
def adjacentRuns : String :=
  "001 1000000000000000000000000000000000000000000000000000000000000000\x7bS064\x7d\x7bIMM10\x7d00"

/-- The runs stay apart, and the text that the format is written as is read as the same format. -/
theorem adjacentRuns_read_back :
    ∃ format, Format.read (encode adjacentRuns.toList) = .ok format ∧
      format = [.constant 3 1, .constant 64 0x8000000000000000, .typed .special 64, .immediate 10,
        .constant 2 0] ∧
      format.render ≠ adjacentRuns ∧ Format.read (encode format.render.toList) = .ok format := by
  have hread : Format.read (encode adjacentRuns.toList) =
      .ok [.constant 3 1, .constant 64 0x8000000000000000, .typed .special 64, .immediate 10,
        .constant 2 0] := by
    decide +kernel
  obtain ⟨hne, hformat⟩ := formats_read_back.1 _ _ hread
  exact ⟨_, hread, rfl, by decide +kernel, formats_read_back.2 _ hne hformat⟩

end WordAsm
