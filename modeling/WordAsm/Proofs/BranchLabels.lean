import WordAsm.Proofs.ListingLines

/-! Labels of branches. A branch whose target is a cell of code is listed with the label of that
cell. The label has one line, and the instruction behind that line stands at the address which the
branch holds, as long as the distance from the origin can be counted in bytes: an address `2 ^ 63`
words or more behind the origin is taken for one in the lower half of the range of words. Only an
immediate of all 64 bits holds such an address. -/

namespace WordAsm

/-- What follows the cells in front of a cell starts with the bytes of that cell. -/
theorem Flow.drop_cells (set : InstructionSet) (code : List UInt8)
    (before after : List Cell) (cell : Cell) (h : cells set code = before ++ cell :: after) :
    code.drop (before.length * cellSize set) = cell.bytes ++ after.flatMap Cell.bytes := by
  have hcells := cells_spec set code
  rw [h] at hcells
  have hlength := hcells.length_run (List.cons_ne_nil cell after)
  have hcode := bytes_cells set code
  rw [h, List.flatMap_append, List.flatMap_cons] at hcode
  rw [← hlength, ← hcode]
  exact List.drop_left

namespace Listing

/-- The bytes that lines take in the image. -/
def extent (width : Nat) (lines : List Line) : Nat :=
  (lines.map (Line.size width)).sum

theorem extent_append (width : Nat) (front rest : List Line) :
    extent width (front ++ rest) = extent width front + extent width rest := by
  rw [extent, List.map_append, List.sum_append]
  rfl

/-- The line lists a cell of code, or the label of one. -/
inductive Line.IsCode : Line → Prop where
  | label (address : UInt64) : IsCode (label address)
  | code (mnemonic : String) (operands : List Operand) : IsCode (code mnemonic operands)

theorem not_mem_dataLines (number : Nat) (bytes : List UInt8) (line : Line) (h : line.IsCode) :
    line ∉ (dataLines number bytes).1 := by
  intro hmem
  rcases mem_dataLines number bytes line hmem with hdata | ⟨value, rfl⟩
  · cases h with
    | label | code => cases hdata
  · cases h

theorem extent_dataLines (width number : Nat) (bytes : List UInt8) :
    extent width (dataLines number bytes).1 = bytes.length := by
  have hsize : ∀ line ∈ (dataLines number bytes).1, line.size width = line.data.length := by
    intro line hline
    cases line with
    | code mnemonic operands => exact absurd hline (not_mem_dataLines number bytes _ (.code _ _))
    | origin | label | words | string | byte => rfl
  calc extent width (dataLines number bytes).1
      = ((dataLines number bytes).1.map fun line => line.data.length).sum := by
        rw [extent, List.map_congr_left hsize]
    _ = ((dataLines number bytes).1.flatMap Line.data).length := List.length_flatMap.symm
    _ = bytes.length := by rw [data_dataLines]

theorem extent_originLines (width : Nat) (origin : UInt64) :
    extent width (originLines origin) = 0 := by
  rw [originLines]
  split
  · rfl
  · rfl

/-- What stands behind lines that it is not one of starts behind all of them. -/
theorem split_behind {first second front rest : List Line} {line : Line}
    (h : first ++ second = front ++ line :: rest) (hline : line ∉ first) :
    ∃ behind, front = first ++ behind ∧ second = behind ++ line :: rest := by
  rcases List.append_eq_append_iff.mp h with ⟨behind, hfront, hsecond⟩ | ⟨more, hfirst, hrest⟩
  · exact ⟨behind, hfront, hsecond⟩
  · cases more with
    | nil =>
      rw [List.append_nil] at hfirst
      exact ⟨[], by rw [List.append_nil, hfirst], hrest.symm⟩
    | cons other more =>
      obtain ⟨rfl, -⟩ := List.cons.inj hrest
      apply absurd _ hline
      rw [hfirst]
      exact List.mem_append_right front List.mem_cons_self

variable {context : Context} {index : Nat} {cells : List Cell} {segments : List Segment}

/-- The line lists the instruction of one of the cells or is the label line in front of it, and the
lines in front take as many bytes as the cells before that one. -/
def StandsFor (context : Context) (index : Nat) (cells : List Cell) (front : List Line)
    (line : Line) (rest : List Line) : Prop :=
  ∃ before cell after decoded, cells = before ++ cell :: after ∧ cell.decoded = some decoded ∧
    extent context.set.width front = before.length * Flow.cellSize context.set ∧
    (line = .code decoded.mnemonic (operands context decoded) ∨
      line = .label (context.address (index + before.length)) ∧
        ∃ later, rest = .code decoded.mnemonic (operands context decoded) :: later)

/-- Lines that take the bytes of whole cells may come in front, together with those cells. -/
theorem StandsFor.behind {front rest lead : List Line} {line : Line} (run : List Cell)
    (h : StandsFor context (index + run.length) cells front line rest)
    (hlead : extent context.set.width lead = run.length * Flow.cellSize context.set) :
    StandsFor context index (run ++ cells) (lead ++ front) line rest := by
  obtain ⟨before, cell, after, decoded, rfl, hdecoded, hextent, hwhere⟩ := h
  refine ⟨run ++ before, cell, after, decoded, (List.append_assoc _ _ _).symm, hdecoded, ?_, ?_⟩
  · rw [extent_append, hlead, hextent, List.length_append, Nat.add_mul]
  · rwa [List.length_append, ← Nat.add_assoc]

/-- A line of code stands as many bytes behind the first one as the cells before its own take, and
so does the label line in front of it. -/
theorem located (hcells : Flow.Cells context.set cells)
    (hcovers : Covers index cells segments) (number : Nat) (front rest : List Line) (line : Line)
    (hline : line.IsCode) (h : segmentLines context number segments = front ++ line :: rest) :
    StandsFor context index cells front line rest := by
  induction hcovers generalizing number front with
  | done =>
    apply absurd h
    exact (List.append_ne_nil_of_right_ne_nil front (List.cons_ne_nil line rest)).symm
  | @code index cell cells segments decoded hdecoded _ ih =>
    -- the line is that of the cell itself or one behind it; what leads to it takes no room
    have hcode (lead front : List Line) (hlead : extent context.set.width lead = 0)
        (h : .code decoded.mnemonic (operands context decoded) ::
          segmentLines context number segments = front ++ line :: rest) :
        StandsFor context index (cell :: cells) (lead ++ front) line rest := by
      cases front with
      | nil =>
        obtain ⟨rfl, -⟩ := List.cons.inj h
        refine ⟨[], cell, cells, decoded, rfl, hdecoded, ?_, .inl rfl⟩
        rw [List.append_nil, hlead, List.length_nil, Nat.zero_mul]
      | cons first front =>
        obtain ⟨rfl, hlater⟩ := List.cons.inj h
        have hextent : extent context.set.width
            (lead ++ [.code decoded.mnemonic (operands context decoded)]) =
              [cell].length * Flow.cellSize context.set := by
          rw [extent_append, hlead, Nat.zero_add, List.length_singleton, Nat.one_mul,
            Flow.cellSize_eq _]
          rfl
        have hstands := (ih (hcells.of_append [cell]) number front hlater).behind [cell] hextent
        rwa [List.append_assoc] at hstands
    rw [segmentLines_code] at h
    split at h
    · cases front with
      | nil =>
        obtain ⟨rfl, rfl⟩ := List.cons.inj h
        exact ⟨[], cell, cells, decoded, rfl, hdecoded, (Nat.zero_mul _).symm,
          .inr ⟨rfl, _, rfl⟩⟩
      | cons first front =>
        obtain ⟨rfl, hlater⟩ := List.cons.inj h
        exact hcode [.label (context.address index)] front rfl hlater
    · exact hcode [] front rfl h
  | @data index cells segments run _ _ ih =>
    rw [segmentLines_data] at h
    obtain ⟨behind, rfl, hlater⟩ := split_behind h (not_mem_dataLines number _ line hline)
    have hstands := ih (hcells.of_append run) _ behind hlater
    -- a cell follows the run, so it takes whole cells
    have hne : cells ≠ [] := by
      obtain ⟨before, cell, after, -, rfl, -⟩ := hstands
      simp
    exact hstands.behind run ((extent_dataLines _ _ _).trans (hcells.length_run hne))

/-- An operand that is listed as a label is an immediate, and the label is that of the cell at its
value. -/
theorem immediate_of_label (context : Context) (decoded : Decoded) (slot : Nat) (target : UInt64)
    (h : (operands context decoded)[slot]? = some (.label target)) :
    ∃ width value cell, (decoded.format.slots.zip decoded.fields)[slot]? =
        some (.immediate width, value) ∧
      Flow.cellAt? (Flow.cellSize context.set) context.length context.origin value = some cell ∧
      cell ∈ context.labels ∧ target = context.address cell := by
  rw [operands, List.getElem?_map, Option.map_eq_some_iff] at h
  obtain ⟨⟨part, value⟩, hentry, hoperand⟩ := h
  -- what is left out at the end does not move the operands in front of it
  have hentry : (decoded.format.slots.zip decoded.fields)[slot]? = some (part, value) := by
    obtain ⟨more, hmore⟩ := List.rdropWhile_prefix isDefault
      (decoded.format.slots.zip decoded.fields)
    obtain ⟨hlt, -⟩ := List.getElem?_eq_some_iff.mp hentry
    rw [← hmore]
    exact (List.getElem?_append_left hlt).trans hentry
  cases part with
  | constant | typed | extra => cases hoperand
  | immediate width =>
    rcases immediate_cases context decoded.mnemonic value with hnumber | ⟨cell, hcell, hmem, hlabel⟩
    · cases hoperand.symm.trans hnumber
    · have heq : Operand.label target = .label (context.address cell) := hoperand.symm.trans hlabel
      exact ⟨width, value, cell, hentry, hcell, List.contains_iff_mem.mp hmem,
        Operand.label.inj heq⟩

/-- A line of code lists the word that the bytes in front of it lead to. -/
theorem decode_of_line (code : List UInt8)
    (hcovers : Covers 0 (Flow.cells context.set code) segments) (front rest : List Line)
    (mnemonic : String) (ops : List Operand)
    (h : originLines context.origin ++ segmentLines context 1 segments =
      front ++ .code mnemonic ops :: rest) :
    ∃ decoded, Decoder.decode context.set (Word.decode context.set.width
        (code.drop (extent context.set.width front))) = some decoded ∧
      decoded.mnemonic = mnemonic ∧ ops = operands context decoded := by
  have hcells := Flow.cells_spec context.set code
  have hnot : Line.code mnemonic ops ∉ originLines context.origin := by
    intro hmem
    cases eq_of_mem_originLines _ _ hmem
  obtain ⟨behind, rfl, hbehind⟩ := split_behind h hnot
  obtain ⟨before, cell, after, decoded, hsplit, hdecoded, hextent, hcode | ⟨hlabel, -⟩⟩ :=
    located hcells hcovers 1 behind rest _ (.code mnemonic ops) hbehind
  · cases hcode
    have hmem : cell ∈ Flow.cells context.set code := by
      rw [hsplit]
      exact List.mem_append_right before List.mem_cons_self
    obtain ⟨hlength, hdecode⟩ := hcells.decoded cell hmem decoded hdecoded
    refine ⟨decoded, ?_, rfl, rfl⟩
    rw [extent_append, extent_originLines, hextent, Nat.zero_add,
      Flow.drop_cells context.set code before after cell hsplit,
      Word.decode_append _ _ _ hlength]
    exact hdecode
  · cases hlabel

/-- The label of a cell of code has its line in front of an instruction, at the address of the
cell. -/
theorem label_line (hcells : Flow.Cells context.set cells)
    (hcovers : Covers 0 cells segments) (cell : Nat) (hcell : cell ∈ context.labels)
    (decoded : Decoded) (hmem : .code cell decoded ∈ segments) :
    ∃ before mnemonic ops after, originLines context.origin ++ segmentLines context 1 segments =
        before ++ .label (context.address cell) :: .code mnemonic ops :: after ∧
      context.origin + UInt64.ofNat (extent context.set.width before / 2) =
        context.address cell := by
  have hlabel := label_mem_segmentLines cell hcell decoded segments hmem 1
  obtain ⟨before, rest, hsplit⟩ := List.append_of_mem hlabel
  obtain ⟨earlier, found, later, other, -, -, hextent, hcode | ⟨haddress, after, rfl⟩⟩ :=
    located hcells hcovers 1 before rest _ (.label _) hsplit
  · cases hcode
  · refine ⟨originLines context.origin ++ before, other.mnemonic, operands context other, after, ?_,
      ?_⟩
    · rw [hsplit, List.append_assoc]
    · rw [extent_append, extent_originLines, Nat.zero_add, hextent, Line.label.inj haddress,
        Nat.zero_add]
      rfl

end Listing

open Listing

/-- Where a branch is listed with a label, the label has one line in the listing, and the
instruction there stands at the address that the branch holds exactly if that is less than `2 ^ 63`
words behind the origin; an immediate of less than 64 bits never holds another one. -/
theorem branch_label_is_target_iff (set : InstructionSet) (origin : UInt64) (code : List UInt8)
    (front rest : List Line) (mnemonic : String) (ops : List Operand)
    (hline : lines set origin code = front ++ .code mnemonic ops :: rest) (slot : Nat)
    (target : UInt64) (hlabel : ops[slot]? = some (.label target)) :
    ∃ decoded width value,
      Decoder.decode set (Word.decode set.width (code.drop (extent set.width front))) =
        some decoded ∧ decoded.mnemonic = mnemonic ∧
      (decoded.format.slots.zip decoded.fields)[slot]? = some (.immediate width, value) ∧
      (lines set origin code).countP (fun line => line.name? == some (labelName target)) = 1 ∧
      ∃ before other ops' after,
        lines set origin code = before ++ .label target :: .code other ops' :: after ∧
        (origin + UInt64.ofNat (extent set.width before / 2) = value ↔
          (value - origin).toNat < 2 ^ 63) ∧
        (width < 64 → origin + UInt64.ofNat (extent set.width before / 2) = value) := by
  have hcode : code ≠ [] := by
    rintro rfl
    cases front <;> cases hline
  obtain ⟨context, segments, rfl, rfl, hcovers, hlines, hlabels⟩ :=
    lines_spec set origin code hcode
  rw [hlines] at hline ⊢
  obtain ⟨decoded, hdecode, hmnemonic, rfl⟩ :=
    decode_of_line code hcovers front rest mnemonic ops hline
  obtain ⟨width, value, cell, hentry, hcell, hmember, rfl⟩ :=
    immediate_of_label context decoded slot target hlabel
  -- the cell that the value leads to has its label line
  obtain ⟨-, found, hfound⟩ := hlabels cell hmember
  obtain ⟨before, other, ops', after, hsplit, haddress⟩ := label_line
    (Flow.cells_spec context.set code) hcovers cell hmember found hfound
  have htarget : context.address cell = value ↔ (value - context.origin).toNat < 2 ^ 63 :=
    Flow.addressOf_eq_iff_of_cellAt? _ _ _ value cell hcell
  refine ⟨decoded, width, value, hdecode, hmnemonic, hentry, ?_, before, other, ops', after, hsplit,
    ?_, ?_⟩
  · have hnames : ((originLines context.origin ++ segmentLines context 1 segments).filterMap
        Line.name?).Nodup := by
      rw [List.filterMap_append, names_originLines, List.nil_append]
      exact (names_segmentLines (fun cell hcell => (hlabels cell hcell).1) hcovers 1).nodup
    rw [← List.count_filterMap]
    apply List.count_eq_one_of_mem hnames
    rw [hsplit]
    exact List.mem_filterMap.mpr ⟨_, List.mem_append_right before List.mem_cons_self, rfl⟩
  · rwa [haddress]
  · intro hwidth
    have hsmall : value.toNat < 2 ^ 63 := by
      obtain ⟨hlt, -⟩ := Decoder.slots_of_decode _ _ decoded hdecode _
        (List.mem_of_getElem? hentry)
      exact Nat.lt_of_lt_of_le hlt (Nat.pow_le_pow_right (by decide) (Nat.le_of_lt_succ hwidth))
    rw [haddress, htarget]
    exact Flow.toNat_sub_lt_of_cellAt? _ _ _ value cell hsmall hcell

/-- A branch back to the first word of an image. -/
theorem backward_branch_label_is_target :
    lines Zirc16.table 0x20 [0x50, 0x00, 0x78, 0x40] =
        [.origin 0x20, .label 0x20, .code "lui" [.number 0]] ++
          .code "brc" [.name "al", .label 0x20] :: [] ∧
      ∃ before other ops after, lines Zirc16.table 0x20 [0x50, 0x00, 0x78, 0x40] =
          before ++ .label 0x20 :: .code other ops :: after ∧
        0x20 + UInt64.ofNat (extent 16 before / 2) = 0x20 := by
  have hlines : lines Zirc16.table 0x20 [0x50, 0x00, 0x78, 0x40] =
      [.origin 0x20, .label 0x20, .code "lui" [.number 0]] ++
        .code "brc" [.name "al", .label 0x20] :: [] := by
    decide +kernel
  have hdecode : Decoder.decode Zirc16.table (Word.decode 16 [0x78, 0x40]) =
      some ⟨"brc", [.constant 5 15, .typed .condition 4, .immediate 6, .extra 1],
        [0, 0x20, 0]⟩ := by
    decide +kernel
  obtain ⟨decoded, width, value, hdecoded, -, hentry, -, before, other, ops, after, hsplit, -,
    hnarrow⟩ := branch_label_is_target_iff Zirc16.table 0x20 _ _ _ _ _ hlines 1 0x20 rfl
  cases hdecode.symm.trans hdecoded
  cases hentry
  exact ⟨hlines, before, other, ops, after, hsplit, hnarrow (by decide)⟩

/-- A set whose only instruction is a jump to an address of 64 bits. -/
def wideJump : Definition where
  name := "wide"
  width := 64
  formats := [("jmp", "\x7bIMM64\x7d")]
  names := []
  pseudos := []
  branches := ["jmp"]
  terminals := []

/-- A jump to the address `2 ^ 63` is listed with the label of the instruction at address zero. -/
theorem wide_jump_label_is_no_target :
    ∃ set decoded, InstructionSet.ofDefinition wideJump = .ok set ∧
      Decoder.decode set (Word.decode set.width [0x80, 0, 0, 0, 0, 0, 0, 0]) = some decoded ∧
      (decoded.format.slots.zip decoded.fields)[0]? =
        some (.immediate 64, 0x8000000000000000) ∧
      lines set 0 [0x80, 0, 0, 0, 0, 0, 0, 0] = [] ++ .label 0 :: .code "jmp" [.label 0] :: [] ∧
      0 + UInt64.ofNat (extent set.width [] / 2) ≠ 0x8000000000000000 ∧
      disassemble set 0 [0x80, 0, 0, 0, 0, 0, 0, 0] = "loc_0000:\n    jmp      loc_0000\n" := by
  refine ⟨⟨"wide", 64, [("jmp", [.immediate 64])], [], [], ["jmp"], [],
      by decide +kernel⟩, ⟨"jmp", [.immediate 64], [0x8000000000000000]⟩, ?_, ?_, rfl, ?_, ?_, ?_⟩
  · decide +kernel
  · decide +kernel
  · decide +kernel
  · decide
  · decide +kernel

end WordAsm
