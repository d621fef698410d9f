import WordAsm.Proofs.InstructionCoding
import WordAsm.Proofs.TextOrder

/-! The format that a word is read in. Of all formats of a set that a word can be read in the
decoder chooses one with the most constant bits, and of several such the one whose mnemonic comes
first, so a format that is more specific wins unless one of its typed slots holds a value without a
name. -/

namespace WordAsm

namespace Word

/-- The bits of a number that is put together at a bit. -/
theorem countP_testBit (high low k more : Nat) (hlow : low < 2 ^ k) :
    (List.range (k + more)).countP (2 ^ k * high + low).testBit =
      (List.range k).countP low.testBit + (List.range more).countP high.testBit := by
  rw [List.range_add, List.countP_append, List.countP_map]
  congr 1
  · apply List.countP_congr
    intro i hi
    rw [Nat.testBit_two_pow_mul_add high hlow, if_pos (List.mem_range.mp hi)]
  · apply List.countP_congr
    intro i _
    rw [Function.comp_apply, Nat.testBit_two_pow_mul_add high hlow, if_neg (by omega),
      Nat.add_sub_cancel_left]

theorem countP_testBit_zero (count : Nat) : (List.range count).countP (Nat.testBit 0) = 0 := by
  rw [List.countP_eq_zero]
  intro i _
  rw [Nat.zero_testBit]
  exact Bool.false_ne_true

theorem countP_testBit_ones (width more : Nat) :
    (List.range (width + more)).countP (2 ^ width - 1).testBit = width := by
  have hlt : 2 ^ width - 1 < 2 ^ width := Nat.sub_lt (Nat.two_pow_pos width) Nat.one_pos
  have hsplit := countP_testBit 0 (2 ^ width - 1) width more hlt
  have hones : (List.range width).countP (2 ^ width - 1).testBit = width := by
    rw [List.countP_eq_length.mpr, List.length_range]
    intro i hi
    rw [Nat.testBit_two_pow_sub_one]
    exact decide_eq_true (List.mem_range.mp hi)
  rw [Nat.mul_zero, Nat.zero_add] at hsplit
  rw [hsplit, hones, countP_testBit_zero, Nat.add_zero]

/-- Ones above a number add to its bits. -/
theorem bitCount_ones (word rest : UInt64) (width k : Nat) (hwidth : width + k ≤ 64)
    (hrest : rest.toNat < 2 ^ k) (hword : word.toNat = (2 ^ width - 1) * 2 ^ k + rest.toNat) :
    bitCount word = width + bitCount rest := by
  obtain ⟨more, hmore⟩ := Nat.exists_eq_add_of_le hwidth
  have hsize : 64 = k + (width + more) := by omega
  have hhigh := countP_testBit (2 ^ width - 1) rest.toNat k (width + more) hrest
  have hlow := countP_testBit 0 rest.toNat k (width + more) hrest
  rw [countP_testBit_ones] at hhigh
  rw [Nat.mul_zero, Nat.zero_add, countP_testBit_zero, Nat.add_zero] at hlow
  rw [bitCount, bitCount, hsize, hword, hlow, Nat.mul_comm]
  exact hhigh.trans (Nat.add_comm _ _)

end Word

namespace Format

/-- How many bits the constant parts have. -/
def constantWidth (format : Format) : Nat :=
  ((format.filter fun part => !part.isSlot).map Part.width).sum

/-- The mask of a format has as many bits as its constant parts. -/
theorem constantBits_eq (format : Format) (hformat : format.WellFormed)
    (hwidth : width format ≤ 64) : constantBits format = constantWidth format := by
  induction format with
  | nil => decide
  | cons part rest ih =>
    have hle : width rest ≤ width (part :: rest) := Nat.le_add_left _ _
    obtain ⟨hpart, hrest⟩ := List.forall_mem_cons.mp hformat
    have hih := ih hrest (by omega)
    by_cases hslot : part.isSlot = true
    · rw [constantBits, pattern_of_slot part rest hslot, constantWidth,
        List.filter_cons_of_neg (by rw [hslot]; decide)]
      exact hih
    · cases part with
      | typed | immediate | extra => exact absurd rfl hslot
      | constant partWidth bits =>
        -- the part puts as many ones as it has bits above the mask of the rest
        obtain ⟨hmask, hbits⟩ := pattern_lt rest hrest (by omega)
        obtain ⟨hword, -⟩ := pattern_constant partWidth bits rest hpart hwidth hmask hbits
        have hcount := Word.bitCount_ones _ _ partWidth (width rest) hwidth hmask hword
        rw [constantBits, hcount, constantWidth, List.filter_cons_of_pos rfl, List.map_cons,
          List.sum_cons]
        exact congrArg (partWidth + ·) hih

end Format

namespace Decoder

/-- The word can be read in the format: it has the bits of the constant parts, and in every typed
slot the value of a name of its class. -/
structure Reads (set : InstructionSet) (format : Format) (word : UInt64) : Prop where
  constants : format.Agrees word.toNat
  named : ∀ entry ∈ format.slots.zip (format.fields word), ∀ cls width,
    entry.1 = .typed cls width → ∃ name, set.value? cls name = some entry.2

theorem accepts_iff (set : InstructionSet) (entry : String × Format)
    (hentry : entry ∈ set.formats) (word : UInt64) :
    accepts set entry.2 word = true ↔ Reads set entry.2 word := by
  have hwidth : Format.width entry.2 ≤ 64 :=
    set.valid.format_width entry hentry ▸ set.valid.width_le
  rw [accepts, Bool.and_eq_true_iff, isNamed_iff,
    Format.admits_iff entry.2 word (set.valid.format_wellFormed entry hentry) hwidth]
  constructor
  · rintro ⟨hconstants, hnamed⟩
    refine ⟨hconstants, ?_⟩
    intro slot hslot cls width hcls
    obtain ⟨name, hname⟩ := Option.isSome_iff_exists.mp (hnamed slot hslot cls width hcls)
    exact ⟨name, set.value?_of_nameOf? cls slot.2 name hname⟩
  · rintro ⟨hconstants, hnamed⟩
    refine ⟨hconstants, ?_⟩
    intro slot hslot cls width hcls
    obtain ⟨name, hname⟩ := hnamed slot hslot cls width hcls
    exact set.isSome_nameOf? cls slot.2 name hname

theorem precedes_iff (a b : String × Format) :
    precedes a b = true ↔ b.2.constantBits ≤ a.2.constantBits :=
  decide_eq_true_iff

theorem precedes_total (a b : String × Format) : precedes a b = true ∨ precedes b a = true := by
  rw [precedes_iff, precedes_iff]
  exact Nat.le_total _ _

theorem precedes_trans (a b c : String × Format) (hab : precedes a b = true)
    (hbc : precedes b c = true) : precedes a c = true := by
  rw [precedes_iff] at *
  exact hbc.trans hab

theorem entries_pairwise (set : InstructionSet) :
    (entries set).Pairwise fun a b => a.1 ≤ b.1 := by
  rw [entries, List.pairwise_map]
  exact sortTexts_pairwise set.formats.names

/-- Formats with more constant bits are tried first. Where several have as many, their mnemonics are
still in order, because the sort is stable. -/
theorem candidates_pairwise (set : InstructionSet) :
    (candidates set).Pairwise fun a b =>
      precedes a b = true ∧ (precedes b a = true → a.1 ≤ b.1) :=
  sortBy_stable precedes precedes_total precedes_trans _ (entries set) (entries_pairwise set)

/-- The format that a word is read in has as many constant bits as any other that it can be read in,
and the mnemonics of those that have no fewer do not come first. -/
theorem precedes_of_decode (set : InstructionSet) (word : UInt64) (decoded : Decoded)
    (h : decode set word = some decoded) (entry : String × Format) (hentry : entry ∈ set.formats)
    (haccepts : accepts set entry.2 word = true) :
    precedes (decoded.mnemonic, decoded.format) entry = true ∧
      (precedes entry (decoded.mnemonic, decoded.format) = true → decoded.mnemonic ≤ entry.1) := by
  obtain ⟨found, hfound, rfl⟩ := Option.map_eq_some_iff.mp h
  obtain ⟨-, front, rest, hsplit, hfront⟩ := List.find?_eq_some_iff_append.mp hfound
  have hordered := candidates_pairwise set
  have hmem : entry ∈ candidates set := (mem_candidates_iff set entry).mpr hentry
  rw [hsplit] at hordered hmem
  -- what stands in front of the format found was tried and turned down
  rcases List.mem_append.mp hmem with hmem | hmem
  · have hnot := hfront entry hmem
    rw [haccepts] at hnot
    cases hnot
  · obtain ⟨-, hordered, -⟩ := List.pairwise_append.mp hordered
    rcases List.mem_cons.mp hmem with rfl | hmem
    · exact ⟨(precedes_total entry entry).elim id id, fun _ => le_rfl⟩
    · exact (List.pairwise_cons.mp hordered).1 entry hmem

end Decoder

/-- The decoder chooses the most specific format. A word fails to decode exactly when it can be read
in the format of no mnemonic. Else it is read in such a format, and no other such format has more
constant bits; the mnemonics of those that have as many come later in the order of their bytes. -/
theorem decoder_chooses_most_specific (set : InstructionSet) (word : UInt64) :
    (Decoder.decode set word = none ↔
      ¬ ∃ mnemonic ∈ set.mnemonics, ∃ format, set.format? mnemonic = some format ∧
        Decoder.Reads set format word) ∧
    ∀ decoded, Decoder.decode set word = some decoded →
      decoded.mnemonic ∈ set.mnemonics ∧
      set.format? decoded.mnemonic = some decoded.format ∧
      Decoder.Reads set decoded.format word ∧
      decoded.fields = decoded.format.fields word ∧
      ∀ other ∈ set.mnemonics, ∀ format, set.format? other = some format →
        Decoder.Reads set format word →
          format.constantWidth ≤ decoded.format.constantWidth ∧
          (other ≠ decoded.mnemonic →
            format.constantWidth = decoded.format.constantWidth →
            Text.encode decoded.mnemonic.toList < Text.encode other.toList) := by
  have hbits (entry : String × Format) (hentry : entry ∈ set.formats) :
      entry.2.constantBits = entry.2.constantWidth := by
    apply Format.constantBits_eq entry.2 (set.valid.format_wellFormed entry hentry)
    exact set.valid.format_width entry hentry ▸ set.valid.width_le
  refine ⟨?_, ?_⟩
  · constructor
    · rintro hnone ⟨mnemonic, hmnemonic, format, hformat, hreads⟩
      have hentry := (set.mem_formats_iff mnemonic format).mpr ⟨hmnemonic, hformat⟩
      obtain ⟨decoded, hdecode⟩ := Decoder.exists_decode set word _ hentry
        ((Decoder.accepts_iff set _ hentry word).mpr hreads)
      rw [hnone] at hdecode
      cases hdecode
    · intro hnone
      rw [Option.eq_none_iff_forall_ne_some]
      intro decoded hdecode
      obtain ⟨hentry, haccepts, -⟩ := Decoder.decode_eq_some set word decoded hdecode
      obtain ⟨hmnemonic, hformat⟩ := (set.mem_formats_iff _ _).mp hentry
      exact hnone ⟨_, hmnemonic, _, hformat,
        (Decoder.accepts_iff set _ hentry word).mp haccepts⟩
  · intro decoded hdecode
    obtain ⟨hentry, haccepts, hfields⟩ := Decoder.decode_eq_some set word decoded hdecode
    obtain ⟨hmnemonic, hformat⟩ := (set.mem_formats_iff _ _).mp hentry
    refine ⟨hmnemonic, hformat, (Decoder.accepts_iff set _ hentry word).mp haccepts,
      hfields, ?_⟩
    intro other hother format hotherFormat hreads
    have hotherEntry := (set.mem_formats_iff other format).mpr ⟨hother, hotherFormat⟩
    obtain ⟨hmore, hfirst⟩ := Decoder.precedes_of_decode set word decoded hdecode (other, format)
      hotherEntry ((Decoder.accepts_iff set _ hotherEntry word).mpr hreads)
    rw [Decoder.precedes_iff, hbits _ hentry, hbits _ hotherEntry] at hmore hfirst
    refine ⟨hmore, ?_⟩
    intro hne hsame
    rw [Text.encode_lt_iff]
    exact lt_of_le_of_ne (hfirst hsame.ge) hne.symm

/-- Three formats that overlap: two with four constant bits, and one with eight that needs a
register. -/
def overlapping : Definition where
  name := "overlap"
  width := 16
  formats := [("b", "0000 \x7bIMM12\x7d"), ("a", "0000 \x7bE4\x7d \x7bIMM8\x7d"),
    ("z", "00000000 \x7bR8\x7d")]
  names := [⟨"r1", .register, 1⟩]
  pseudos := []
  branches := []
  terminals := []

def overlapping.set : InstructionSet :=
  ⟨"overlap", 16,
    [("b", [.constant 4 0, .immediate 12]), ("a", [.constant 4 0, .extra 4, .immediate 8]),
      ("z", [.constant 8 0, .typed .register 8])],
    [⟨"r1", .register, 1⟩], [], [], [], by decide +kernel⟩

/-- The format with more constant bits wins where its slot holds the register. Elsewhere the first
mnemonic of the other two is taken, and a word that has none of the constants fails to decode. -/
theorem overlapping_decoded :
    ∃ set, InstructionSet.ofDefinition overlapping = .ok set ∧
      (∃ decoded, Decoder.decode set 0x0001 = some decoded ∧ decoded.mnemonic = "z" ∧
        ∀ other ∈ set.mnemonics, ∀ format, set.format? other = some format →
          Decoder.Reads set format 0x0001 → format.constantWidth ≤ 8) ∧
      (∃ decoded, Decoder.decode set 0x0002 = some decoded ∧ decoded.mnemonic = "a" ∧
        decoded.fields = [0, 2] ∧
        ∀ other ∈ set.mnemonics, ∀ format, set.format? other = some format →
          Decoder.Reads set format 0x0002 → format.constantWidth ≤ 4 ∧
            (other ≠ "a" → format.constantWidth = 4 → [0x61] < Text.encode other.toList)) ∧
      ¬ ∃ mnemonic ∈ set.mnemonics, ∃ format, set.format? mnemonic = some format ∧
        Decoder.Reads set format 0x1000 := by
  have hset : InstructionSet.ofDefinition overlapping = .ok overlapping.set := by
    decide +kernel
  have hnamed : Decoder.decode overlapping.set 0x0001 =
      some ⟨"z", [.constant 8 0, .typed .register 8], [1]⟩ := by
    decide +kernel
  have hother : Decoder.decode overlapping.set 0x0002 =
      some ⟨"a", [.constant 4 0, .extra 4, .immediate 8], [0, 2]⟩ := by
    decide +kernel
  obtain ⟨-, -, -, -, hmost⟩ :=
    (decoder_chooses_most_specific overlapping.set 0x0001).2 _ hnamed
  obtain ⟨-, -, -, -, hfirst⟩ :=
    (decoder_chooses_most_specific overlapping.set 0x0002).2 _ hother
  refine ⟨_, hset, ⟨_, hnamed, rfl, ?_⟩, ⟨_, hother, rfl, rfl, hfirst⟩, ?_⟩
  · intro other hother format hformat hreads
    exact (hmost other hother format hformat hreads).1
  · exact (decoder_chooses_most_specific overlapping.set 0x1000).1.mp (by decide +kernel)

end WordAsm
