import WordAsm.Proofs.ListingSegments

/-! The lines of segments. They give the bytes of the cells, every label line stands at the address
that it names, and no label is defined twice. -/

namespace WordAsm

namespace Flow

theorem cellSize_eq (set : InstructionSet) :
    cellSize set = set.width / 16 * 2 := by
  have hmod := set.valid.width_mod
  rw [cellSize]
  omega

variable (set : InstructionSet) (origin : UInt64)

theorem addressOf_eq (index : Nat) :
    addressOf (cellSize set) origin index = origin + UInt64.ofNat (index * (set.width / 16)) := by
  rw [addressOf, cellSize_eq set, ← Nat.mul_assoc, Nat.mul_div_cancel _ (by decide)]

theorem addressOf_add (index count : Nat) :
    addressOf (cellSize set) origin index + UInt64.ofNat (count * (set.width / 16)) =
      addressOf (cellSize set) origin (index + count) := by
  rw [addressOf_eq set, addressOf_eq set, Nat.add_mul, UInt64.ofNat_add, UInt64.add_assoc]

/-- Cells that lie within the range of words have different addresses. -/
theorem addressOf_injective (index other : Nat) (hindex : index * cellSize set < 2 ^ 64)
    (hother : other * cellSize set < 2 ^ 64)
    (h : addressOf (cellSize set) origin index = addressOf (cellSize set) origin other) :
    index = other := by
  have hpos := cellSize_pos set
  rw [addressOf_eq set, addressOf_eq set, UInt64.add_right_inj] at h
  rw [cellSize_eq set, ← Nat.mul_assoc] at hindex hother
  have hlt : index * (set.width / 16) < UInt64.size := by change _ < 2 ^ 64; omega
  have hlt' : other * (set.width / 16) < UInt64.size := by change _ < 2 ^ 64; omega
  have hoffset := congrArg UInt64.toNat h
  rw [UInt64.toNat_ofNat_of_lt' hlt, UInt64.toNat_ofNat_of_lt' hlt'] at hoffset
  rw [cellSize_eq set] at hpos
  exact Nat.eq_of_mul_eq_mul_right (by omega) hoffset

end Flow

/-- No mnemonic is a directive, and the slots are so narrow that the distance to the target of a
branch is counted exactly. -/
structure InstructionSet.Listable (set : InstructionSet) : Prop where
  mnemonic : ∀ entry ∈ set.formats, Directive.isDirective entry.1 = false
  narrow : ∀ entry ∈ set.formats, ∀ part ∈ entry.2, part.width < 64

theorem Decoder.fields_lt (set : InstructionSet) (hset : set.Listable) (word : UInt64)
    (decoded : Decoded) (h : decode set word = some decoded) :
    ∀ entry ∈ decoded.format.slots.zip decoded.fields, entry.2.toNat < 2 ^ 63 := by
  obtain ⟨hmem, -, -⟩ := decode_eq_some set word decoded h
  intro entry hentry
  have hpart : entry.1 ∈ decoded.format := (List.mem_filter.mp (List.of_mem_zip hentry).1).1
  have hwidth := hset.narrow _ hmem entry.1 hpart
  obtain ⟨hlt, -⟩ := slots_of_decode set word decoded h entry hentry
  exact lt_of_lt_of_le hlt (Nat.pow_le_pow_right (by decide) (by omega))

namespace Listing

variable {context : Context} {index : Nat} {cells : List Cell} {segments : List Segment}

/-- The address of a cell. -/
def Context.address (context : Context) (cell : Nat) : UInt64 :=
  Flow.addressOf (Flow.cellSize context.set) context.origin cell

theorem segmentLines_code (context : Context) (number cell : Nat) (decoded : Decoded)
    (segments : List Segment) :
    segmentLines context number (.code cell decoded :: segments) =
      (if context.labels.contains cell then [.label (context.address cell)] else []) ++
        (.code decoded.mnemonic (operands context decoded) ::
          segmentLines context number segments) :=
  rfl

theorem segmentLines_data (context : Context) (number : Nat) (bytes : List UInt8)
    (segments : List Segment) :
    segmentLines context number (.data bytes :: segments) =
      (dataLines number bytes).1 ++ segmentLines context (dataLines number bytes).2 segments :=
  rfl

theorem label_of_operands (context : Context) (decoded : Decoded) (address : UInt64)
    (h : .label address ∈ operands context decoded) :
    ∃ cell ∈ context.labels, address = context.address cell := by
  obtain ⟨⟨part, value⟩, -, hoperand⟩ := List.mem_map.mp h
  cases part with
  | constant | typed | extra => cases hoperand
  | immediate width =>
    rcases immediate_cases context decoded.mnemonic value with hnumber | ⟨cell, -, hcell, hlabel⟩
    · exact absurd (hoperand.symm.trans hnumber) nofun
    · have heq : Operand.label address = .label (context.address cell) := hoperand.symm.trans hlabel
      exact ⟨cell, List.contains_iff_mem.mp hcell, Operand.label.inj heq⟩

/-- A data block gives its bytes. -/
theorem emits_dataLines {lexicon : Lexicon} {set : InstructionSet} {labels : NameMap UInt64}
    (number : Nat) (bytes : List UInt8) :
    Emits lexicon set labels (dataLines number bytes).1 bytes := by
  have hlines : ∀ line ∈ (dataLines number bytes).1,
      Emits lexicon set labels [line] line.data := by
    intro line hline
    rcases mem_dataLines number bytes line hline with hdata | ⟨value, rfl⟩
    · exact emits_data line hdata
    · exact emits_byte value
  have hemits := Emits.of_forall Line.data _ hlines
  rwa [data_dataLines] at hemits

/-- The lines of segments give the bytes of the cells that these cover. -/
theorem emits_segmentLines (hset : context.set.Listable) {labels : NameMap UInt64}
    (hlabels : ∀ cell ∈ context.labels,
      labels.get? (labelName (context.address cell)) = some (context.address cell))
    (hcells : Flow.Cells context.set cells) (hcovers : Covers index cells segments)
    (number : Nat) :
    Emits context.set.classOf? context.set labels (segmentLines context number segments)
      (cells.flatMap Cell.bytes) := by
  induction hcovers generalizing number with
  | done => exact .nil
  | @code index cell cells segments decoded hdecoded _ ih =>
    obtain ⟨hlength, hdecode⟩ := hcells.decoded cell List.mem_cons_self decoded hdecoded
    obtain ⟨hmem, -, -⟩ := Decoder.decode_eq_some _ _ decoded hdecode
    have hsmall := Decoder.fields_lt context.set hset _ decoded hdecode
    have hcode : Emits context.set.classOf? context.set labels
        [.code decoded.mnemonic (operands context decoded)] cell.bytes := by
      refine emits_code rfl cell.bytes decoded hlength hdecode (hset.mnemonic _ hmem)
        (fun entry hentry => hsmall entry (mem_zip_of_written decoded entry hentry)) ?_
      intro address haddress
      obtain ⟨cell, hcell, rfl⟩ := label_of_operands context decoded address haddress
      exact hlabels cell hcell
    have hlabel : Emits context.set.classOf? context.set labels
        (if context.labels.contains index then [.label (context.address index)] else []) [] := by
      split
      · exact emits_nothing _ fun body hbody => by cases hbody
      · exact .nil
    -- a label line, if there is one, the cell itself and the lines behind it
    rw [segmentLines_code, List.flatMap_cons]
    exact hlabel.append (hcode.append (ih (hcells.of_append [cell]) number))
  | @data index cells segments run _ _ ih =>
    rw [segmentLines_data, List.flatMap_append]
    exact (emits_dataLines number _).append (ih (hcells.of_append run) _)

/-- The labels of lines: those of cells from `index` on and of strings from `number` on, each of
them once. -/
structure DistinctNames (context : Context) (index number : Nat) (names : List String) : Prop where
  nodup : names.Nodup
  cases : ∀ name ∈ names,
    (∃ cell ∈ context.labels, index ≤ cell ∧ name = labelName (context.address cell)) ∨
      ∃ other, number ≤ other ∧ name = stringName other

theorem DistinctNames.label
    (hlabels : ∀ cell ∈ context.labels, cell * Flow.cellSize context.set < 2 ^ 64)
    (hindex : index ∈ context.labels) {number : Nat} {names : List String}
    (h : DistinctNames context (index + 1) number names) :
    DistinctNames context index number (labelName (context.address index) :: names) where
  nodup := by
    -- cells within the range of words have addresses, and so names, of their own
    refine List.nodup_cons.mpr ⟨fun hmem => ?_, h.nodup⟩
    rcases h.cases _ hmem with ⟨cell, hcell, hle, hname⟩ | ⟨other, -, hname⟩
    · have hcell := Flow.addressOf_injective context.set context.origin index cell
        (hlabels index hindex) (hlabels cell hcell) (labelName_injective _ _ hname)
      omega
    · exact labelName_ne_stringName _ other hname
  cases := by
    intro name hname
    rcases List.mem_cons.mp hname with rfl | hname
    · exact .inl ⟨index, hindex, Nat.le_refl index, rfl⟩
    · refine (h.cases name hname).imp_left ?_
      rintro ⟨cell, hcell, hle, heq⟩
      exact ⟨cell, hcell, by omega, heq⟩

theorem DistinctNames.strings {number next : Nat} {names : List String} (hnext : number ≤ next)
    (h : DistinctNames context index next names) :
    DistinctNames context index number
      ((List.range' number (next - number)).map stringName ++ names) where
  nodup := by
    have hrange : ((List.range' number (next - number)).map stringName).Nodup :=
      List.Nodup.map (fun index other => stringName_injective index other) List.nodup_range'
    refine List.nodup_append.mpr ⟨hrange, h.nodup, ?_⟩
    rintro name hname other hother rfl
    obtain ⟨string, hstring, rfl⟩ := List.mem_map.mp hname
    have hlt := (List.mem_range'_1.mp hstring).2
    rcases h.cases _ hother with ⟨cell, -, -, heq⟩ | ⟨other, hle, heq⟩
    · exact labelName_ne_stringName _ _ heq.symm
    · have heq := stringName_injective _ _ heq
      omega
  cases := by
    intro name hname
    rcases List.mem_append.mp hname with hname | hname
    · obtain ⟨string, hstring, rfl⟩ := List.mem_map.mp hname
      exact .inr ⟨string, (List.mem_range'_1.mp hstring).1, rfl⟩
    · refine (h.cases name hname).imp_right ?_
      rintro ⟨other, hle, heq⟩
      exact ⟨other, hnext.trans hle, heq⟩

theorem DistinctNames.weaken {number later : Nat} {names : List String} (hle : index ≤ later)
    (h : DistinctNames context later number names) :
    DistinctNames context index number names where
  nodup := h.nodup
  cases := by
    intro name hname
    refine (h.cases name hname).imp_left ?_
    rintro ⟨cell, hcell, hlater, heq⟩
    exact ⟨cell, hcell, hle.trans hlater, heq⟩

/-- No label is defined twice. -/
theorem names_segmentLines
    (hlabels : ∀ cell ∈ context.labels, cell * Flow.cellSize context.set < 2 ^ 64)
    (hcovers : Covers index cells segments) (number : Nat) :
    DistinctNames context index number
      ((segmentLines context number segments).filterMap Line.name?) := by
  induction hcovers generalizing number with
  | done => exact ⟨List.nodup_nil, nofun⟩
  | @code index cell cells segments decoded _ _ ih =>
    have hlater := ih number
    rw [segmentLines_code]
    split
    · rename_i hlabel
      exact hlater.label hlabels (List.contains_iff_mem.mp hlabel)
    · exact hlater.weaken (Nat.le_succ index)
  | @data index cells segments run _ _ ih =>
    obtain ⟨hle, hnames⟩ := names_dataLines number (run.flatMap Cell.bytes)
    rw [segmentLines_data, List.filterMap_append, hnames]
    exact ((ih _).weaken (Nat.le_add_right index _)).strings hle

theorem ofNat_double_div (count : Nat) (h : count * 2 < 2 ^ 64) :
    UInt64.ofNat (count * 2) / 2 = UInt64.ofNat count := by
  have hlt : count < UInt64.size := by change _ < 2 ^ 64; omega
  apply UInt64.toNat_inj.mp
  rw [UInt64.toNat_div, UInt64.toNat_ofNat_of_lt' h, UInt64.toNat_ofNat_of_lt' hlt]
  exact Nat.mul_div_cancel count (by decide)

theorem wellPlaced_of_unlabelled (width : Nat) (lines : List Line) (address : UInt64)
    (h : ∀ line ∈ lines, ∀ value, line ≠ .label value) : WellPlaced width address lines := by
  induction lines generalizing address with
  | nil => trivial
  | cons line lines ih =>
    exact ⟨fun value heq => absurd heq (h line List.mem_cons_self value),
      ih _ fun other hother => h other (List.mem_cons_of_mem _ hother)⟩

/-- Lines of words move the address by as many words as they hold. -/
theorem foldl_behind (width : Nat) (lines : List Line) (address : UInt64)
    (hdata : ∀ line ∈ lines, line.IsData) (count : Nat)
    (hcount : (lines.flatMap Line.data).length = count * 2) (hlt : count * 2 < 2 ^ 64) :
    lines.foldl (Line.behind width) address = address + UInt64.ofNat count := by
  induction lines generalizing address count with
  | nil =>
    have hzero : count = 0 := by
      rw [List.flatMap_nil, List.length_nil] at hcount
      omega
    rw [hzero]
    exact (UInt64.add_zero address).symm
  | cons line lines ih =>
    obtain ⟨words, hwords⟩ := (hdata line List.mem_cons_self).length_data
    rw [List.flatMap_cons, List.length_append, hwords] at hcount
    have hlater := ih (line.behind width address)
      (fun other hother => hdata other (List.mem_cons_of_mem _ hother)) (count - words) (by omega)
      (by omega)
    have hbehind : line.behind width address = address + UInt64.ofNat words := by
      rw [← ofNat_double_div words (by omega), ← hwords]
      cases hdata line List.mem_cons_self with
      | words | string => rfl
    rw [List.foldl_cons, hlater, hbehind, UInt64.add_assoc, ← UInt64.ofNat_add,
      Nat.add_sub_cancel' (by omega)]

theorem wellPlaced_dataLines (width number : Nat) (bytes : List UInt8) (address : UInt64) :
    WellPlaced width address (dataLines number bytes).1 := by
  refine wellPlaced_of_unlabelled width _ address fun line hline value hlabel => ?_
  rcases mem_dataLines number bytes line hline with hdata | ⟨value, rfl⟩
  · rw [hlabel] at hdata
    cases hdata
  · cases hlabel

/-- The data lines of a run lead to the address of the cell behind it. -/
theorem address_behind_run (run : List Cell)
    (hcells : Flow.Cells context.set (run ++ cells)) (hne : cells ≠ []) (number : Nat)
    (hlt : (index + run.length) * Flow.cellSize context.set < 2 ^ 64) :
    (dataLines number (run.flatMap Cell.bytes)).1.foldl (Line.behind context.set.width)
      (context.address index) = context.address (index + run.length) := by
  obtain ⟨words, lines, odd, hlines, heq, hbytes, hodd⟩ :=
    dataLines_spec number (run.flatMap Cell.bytes)
  -- more cells follow the run, so it takes whole cells and no byte is left over
  have hlength := hcells.length_run hne
  rw [← hbytes, List.length_append, length_wordsBytes, Flow.cellSize_eq _,
    ← Nat.mul_assoc] at hlength
  have hnone : odd = [] := List.length_eq_zero_iff.mp (by omega)
  have hcount : words.length = run.length * (context.set.width / 16) := by omega
  have hwords : (lines.flatMap Line.data).length = words.length * 2 := by
    rw [hlines.bytes, length_wordsBytes]
  rw [Flow.cellSize_eq _, Nat.add_mul, ← Nat.mul_assoc, ← Nat.mul_assoc] at hlt
  rw [heq, hnone, List.map_nil, List.append_nil,
    foldl_behind _ lines _ hlines.data words.length hwords (by omega), hcount, Context.address,
    Flow.addressOf_add context.set]
  rfl

theorem behind_label (width : Nat) (address value : UInt64) :
    (Line.label value).behind width address = address := by
  change address + UInt64.ofNat (0 * 2) / 2 = address
  rw [ofNat_double_div 0 (by decide)]
  exact UInt64.add_zero address

/-- An instruction leads from the address of its cell to that of the next one. -/
theorem address_behind_code (index : Nat) (mnemonic : String)
    (ops : List Operand) :
    (Line.code mnemonic ops).behind context.set.width (context.address index) =
      context.address (index + 1) := by
  have hwidth := context.set.valid.width_le
  change context.address index + UInt64.ofNat (context.set.width / 16 * 2) / 2 = _
  rw [ofNat_double_div _ (by omega), Context.address, Context.address,
    ← Flow.addressOf_add context.set, Nat.one_mul]

/-- Every label line stands at the address of its cell. -/
theorem wellPlaced_segmentLines
    (hlabels : ∀ cell ∈ context.labels, cell * Flow.cellSize context.set < 2 ^ 64)
    (hcells : Flow.Cells context.set cells) (hcovers : Covers index cells segments)
    (number : Nat) (address : UInt64)
    (haddress : index * Flow.cellSize context.set < 2 ^ 64 → address = context.address index) :
    WellPlaced context.set.width address (segmentLines context number segments) := by
  -- the address is that of the cell reached; where cells lie beyond the range of words there is no
  -- label, and nothing has to hold
  induction hcovers generalizing number address with
  | done => trivial
  | @code index cell cells segments decoded _ _ ih =>
    have hcode : WellPlaced context.set.width address
        (.code decoded.mnemonic (operands context decoded) ::
          segmentLines context number segments) := by
      refine ⟨nofun, ih (hcells.of_append [cell]) number _ fun hlt => ?_⟩
      rw [haddress (by rw [Nat.add_mul] at hlt; omega)]
      exact address_behind_code index _ _
    rw [segmentLines_code]
    split
    · rename_i hlabel
      refine ⟨?_, ?_⟩
      · rintro value ⟨⟩
        exact (haddress (hlabels index (List.contains_iff_mem.mp hlabel))).symm
      · rw [behind_label]
        exact hcode
    · exact hcode
  | @data index cells segments run _ hrest ih =>
    rw [segmentLines_data, wellPlaced_append]
    refine ⟨wellPlaced_dataLines _ _ _ _, ?_⟩
    by_cases hlast : cells = []
    · subst hlast
      rw [hrest.eq_nil]
      trivial
    refine ih (hcells.of_append run) _ _ fun hlt => ?_
    rw [haddress (by rw [Nat.add_mul] at hlt; omega)]
    exact address_behind_run run hcells hlast number hlt

/-- A labelled cell of code has its label line. -/
theorem label_mem_segmentLines (cell : Nat) (hlabel : cell ∈ context.labels) (decoded : Decoded)
    (segments : List Segment) (h : .code cell decoded ∈ segments) (number : Nat) :
    .label (context.address cell) ∈ segmentLines context number segments := by
  induction segments generalizing number with
  | nil => cases h
  | cons segment segments ih =>
    rcases List.mem_cons.mp h with rfl | hlater
    · rw [segmentLines_code, if_pos (List.contains_iff_mem.mpr hlabel)]
      exact List.mem_cons_self
    cases segment with
    | code other decoded =>
      rw [segmentLines_code]
      exact List.mem_append_right _ (List.mem_cons_of_mem _ (ih hlater number))
    | data bytes =>
      rw [segmentLines_data]
      exact List.mem_append_right _ (ih hlater _)

/-- The lines that the listing of some cells may have. -/
inductive Lists (context : Context) (cells : List Cell) : Line → Prop
  | origin (address : UInt64) : Lists context cells (.origin address)
  | label (cell : Nat) (hcell : cell ∈ context.labels) :
    Lists context cells (.label (context.address cell))
  | code (cell : Cell) (hcell : cell ∈ cells) (decoded : Decoded)
    (hdecoded : cell.decoded = some decoded) :
    Lists context cells (.code decoded.mnemonic (operands context decoded))
  | data (line : Line) (hdata : line.IsData) : Lists context cells line
  | byte (value : UInt8) : Lists context cells (.byte value)

theorem Lists.append (front : List Cell) {line : Line} (h : Lists context cells line) :
    Lists context (front ++ cells) line := by
  cases h with
  | origin address => exact .origin address
  | label cell hcell => exact .label cell hcell
  | code cell hcell decoded hdecoded =>
    exact .code cell (List.mem_append_right front hcell) decoded hdecoded
  | data line hdata => exact .data line hdata
  | byte value => exact .byte value

theorem lists_of_mem (hcovers : Covers index cells segments) (number : Nat) (line : Line)
    (h : line ∈ segmentLines context number segments) : Lists context cells line := by
  induction hcovers generalizing number with
  | done => cases h
  | @code index cell cells segments decoded hdecoded _ ih =>
    rw [segmentLines_code] at h
    rcases List.mem_append.mp h with h | h
    · split at h
      · rename_i hlabel
        rw [List.mem_singleton.mp h]
        exact .label index (List.contains_iff_mem.mp hlabel)
      · cases h
    · rcases List.mem_cons.mp h with rfl | h
      · exact .code cell List.mem_cons_self decoded hdecoded
      · exact (ih number h).append [cell]
  | @data index cells segments run _ _ ih =>
    rw [segmentLines_data] at h
    rcases List.mem_append.mp h with h | h
    · rcases mem_dataLines number _ line h with hdata | ⟨value, rfl⟩
      · exact .data line hdata
      · exact .byte value
    · exact (ih _ h).append run

/-- The line in front of a listing that sets its origin, if there has to be one. -/
def originLines (origin : UInt64) : List Line :=
  if origin = 0 then [] else [.origin origin]

theorem eq_of_mem_originLines (origin : UInt64) (line : Line) (h : line ∈ originLines origin) :
    line = .origin origin := by
  rw [originLines] at h
  split at h
  · cases h
  · exact List.mem_singleton.mp h

theorem names_originLines (origin : UInt64) : (originLines origin).filterMap Line.name? = [] := by
  refine List.filterMap_eq_nil_iff.mpr fun line hline => ?_
  rw [eq_of_mem_originLines origin line hline]
  rfl

theorem emits_originLines {lexicon : Lexicon} {set : InstructionSet} {labels : NameMap UInt64}
    (origin : UInt64) : Emits lexicon set labels (originLines origin) [] := by
  rw [originLines]
  split
  · exact .nil
  · refine emits_nothing _ fun body hbody => ?_
    cases hbody
    refine Bool.eq_false_iff.mpr fun hretained => ?_
    have horigin : Directive.isOrigin (Text.lower "org") = false :=
      ((Statement.retained_iff _).mp hretained).2
    rw [isOrigin_org] at horigin
    cases horigin

theorem wellPlaced_originLines (width : Nat) (origin : UInt64) (rest : List Line)
    (h : WellPlaced width origin rest) : WellPlaced width 0 (originLines origin ++ rest) := by
  rw [originLines]
  split
  · rename_i hzero
    exact hzero ▸ h
  · exact ⟨nofun, h⟩

/-- The lines of an image set its origin, and list segments that cover its cells,
in which every label is that of a cell of code. -/
theorem lines_spec (set : InstructionSet) (origin : UInt64) (code : List UInt8)
    (hcode : code ≠ []) :
    ∃ context segments, context.set = set ∧ context.origin = origin ∧
      Covers 0 (Flow.cells set code) segments ∧
      lines set origin code = originLines origin ++ segmentLines context 1 segments ∧
      ∀ cell ∈ context.labels, cell * Flow.cellSize set < 2 ^ 64 ∧
        ∃ decoded, .code cell decoded ∈ segments := by
  have hnot : ¬code.isEmpty = true := fun h => hcode (List.isEmpty_iff.mp h)
  rw [lines, if_neg hnot]
  refine ⟨_, _, rfl, rfl, covers_segments _ 0 _, rfl, fun cell hcell => ?_⟩
  obtain ⟨target, htarget, rfl⟩ := List.mem_map.mp hcell
  obtain ⟨hmarked, -, branch, -, -, hbranch⟩ := (Flow.Sweep.mem_labels_walk_iff _ target).mp htarget
  obtain ⟨hsome, hcode⟩ := Bool.and_eq_true_iff.mp hmarked
  obtain ⟨decoded, hdecoded⟩ := Option.isSome_iff_exists.mp hsome
  constructor
  · have hlt := Flow.Sweep.lt_of_branchTarget? hbranch
    rw [Flow.Sweep.offset_of_instruction hdecoded] at hlt
    change (_ : Int) * (Flow.cellSize set : Nat) < _ at hlt
    omega
  · obtain ⟨found, hfound, hdecoded⟩ := Flow.Sweep.cell_of_instruction hdecoded
    rw [← Array.getElem?_toList] at hfound
    generalize Flow.Sweep.cellOf _ target = cell at hcode hfound ⊢
    rw [← Nat.zero_add cell] at hcode ⊢
    exact ⟨decoded, code_mem_segments _ 0 _ cell found decoded hcode hfound hdecoded⟩

/-- Lines that stand for an image: they are of the kinds that list its cells, define no label twice
and each at its address, and give its bytes once every label stands for the address in its name. -/
structure Represents (set : InstructionSet) (code : List UInt8) (lines : List Line) : Prop where
  lists : ∃ context, context.set = set ∧
    ∀ line ∈ lines, Lists context (Flow.cells set code) line
  names : (lines.filterMap Line.name?).Nodup
  placed : WellPlaced set.width 0 lines
  emits : ∀ labels : NameMap UInt64,
    (∀ value, .label value ∈ lines → labels.get? (labelName value) = some value) →
      Emits set.classOf? set labels lines code

theorem represents_nil (set : InstructionSet) : Represents set [] [] where
  lists := ⟨⟨set, 0, 0, []⟩, rfl, nofun⟩
  names := List.nodup_nil
  placed := trivial
  emits := fun _ _ => .nil

/-- The lines of an image stand for it. -/
theorem represents_lines (set : InstructionSet) (hset : set.Listable) (origin : UInt64)
    (code : List UInt8) : Represents set code (lines set origin code) := by
  by_cases hcode : code = []
  · subst hcode
    exact represents_nil set
  obtain ⟨context, segments, rfl, rfl, hcovers, hlines, hlabels⟩ :=
    lines_spec set origin code hcode
  have hcells := Flow.cells_spec context.set code
  have hsmall := fun cell hcell => (hlabels cell hcell).1
  rw [hlines]
  refine ⟨⟨context, rfl, fun line hline => ?_⟩, ?_, ?_, fun labels hknown => ?_⟩
  · rcases List.mem_append.mp hline with hline | hline
    · rw [eq_of_mem_originLines _ line hline]
      exact .origin _
    · exact lists_of_mem hcovers 1 line hline
  · rw [List.filterMap_append, names_originLines, List.nil_append]
    exact (names_segmentLines hsmall hcovers 1).nodup
  · refine wellPlaced_originLines _ _ _ ?_
    refine wellPlaced_segmentLines hsmall hcells hcovers 1 _ fun _ => ?_
    rw [Context.address, Flow.addressOf, Nat.zero_mul]
    exact (UInt64.add_zero context.origin).symm
  · -- every label of a cell has its line, so it stands for the address of the cell
    have hresolved : ∀ cell ∈ context.labels,
        labels.get? (labelName (context.address cell)) = some (context.address cell) := by
      intro cell hcell
      obtain ⟨decoded, hmem⟩ := (hlabels cell hcell).2
      exact hknown _ (List.mem_append_right _
        (label_mem_segmentLines cell hcell decoded segments hmem 1))
    have hemits := emits_segmentLines hset hresolved hcells hcovers 1
    rw [Flow.bytes_cells] at hemits
    exact (emits_originLines context.origin).append hemits

end Listing

end WordAsm
