import WordAsm.Proofs.BranchLabels
import WordAsm.Proofs.Worklist

/-! Code that execution can reach. Execution steps from an offset of an image whose word decodes to
the offset behind it, unless the instruction there is terminal, and to the offset that it branches
to. What a listing marks as code are the offsets reached from the first one whose word decodes, and
it has labels where marked branches lead to marked offsets. -/

namespace WordAsm

/-- The chunk with a number starts behind that many full chunks. -/
theorem getElem?_chunks {α : Type} (size : Nat) (hsize : 0 < size) (list : List α) (index : Nat) :
    (chunks size list)[index]? =
      if index * size < list.length then some ((list.drop (index * size)).take size) else none := by
  fun_induction chunks size list generalizing index with
  | case1 => rfl
  | case2 head tail ih =>
    obtain ⟨size, rfl⟩ := Nat.exists_eq_add_one_of_ne_zero hsize.ne'
    cases index with
    | zero => simp
    | succ index =>
      have hbehind : (index + 1) * (size + 1) = index * (size + 1) + size + 1 := by
        rw [Nat.succ_mul]
        omega
      have hlength : index * (size + 1) < tail.length - size ↔
          index * (size + 1) + size + 1 < tail.length + 1 := by
        omega
      rw [List.getElem?_cons_succ, ih, hbehind, List.drop_succ_cons, List.drop_drop,
        List.length_drop, List.length_cons, Nat.add_sub_cancel, if_congr hlength rfl rfl,
        Nat.add_comm size (index * (size + 1))]

namespace Flow

/-- The instruction at an offset of an image, if a word starts there and decodes. -/
def instructionAt? (set : InstructionSet) (code : List UInt8) (offset : Int) : Option Decoded :=
  if 0 ≤ offset ∧ offset + cellSize set ≤ code.length then
    Decoder.decode set (Word.decode set.width (code.drop offset.toNat))
  else none

/-- Execution steps from one offset of an image to another. -/
inductive Follows (set : InstructionSet) (origin : UInt64) (code : List UInt8) : Int → Int → Prop
  | onward {offset : Int} {decoded : Decoded}
    (hdecoded : instructionAt? set code offset = some decoded)
    (hgoes : set.isTerminal decoded.mnemonic = false) :
    Follows set origin code offset (offset + cellSize set)
  | branch {offset target : Int} {decoded : Decoded}
    (hdecoded : instructionAt? set code offset = some decoded)
    (htarget : (Sweep.ofImage set origin code).branchTarget? decoded = some target) :
    Follows set origin code offset target

variable {set : InstructionSet}

/-- The cell with a number decodes to the instruction at its offset. -/
theorem decoded_cells (code : List UInt8) (index : Nat) :
    (cells set code)[index]?.bind Cell.decoded =
      instructionAt? set code (index * cellSize set : Nat) := by
  have hpos := cellSize_pos set
  rw [cells, List.getElem?_map, getElem?_chunks _ hpos, instructionAt?]
  generalize index * cellSize set = offset
  have hfull : (0 ≤ (offset : Int) ∧ (offset : Int) + cellSize set ≤ code.length) ↔
      offset + cellSize set ≤ code.length := by
    omega
  rw [if_congr hfull rfl rfl, Int.toNat_natCast]
  split
  · have hlength : ((code.drop offset).take (cellSize set)).length = cellSize set ↔
        offset + cellSize set ≤ code.length := by
      rw [List.length_take, List.length_drop]
      omega
    rw [Option.map_some, Option.bind_some]
    by_cases hfull : offset + cellSize set ≤ code.length
    · rw [if_pos hfull, if_pos (hlength.mpr hfull)]
      -- the word does not depend on the bytes behind the cell
      have hword := Word.decode_append set.width _ ((code.drop offset).drop (cellSize set))
        (hlength.mpr hfull)
      rw [List.take_append_drop] at hword
      rw [hword]
      rfl
    · rw [if_neg hfull, if_neg fun h => hfull (hlength.mp h)]
  · rw [if_neg (by omega)]
    rfl

@[simp]
theorem Sweep.cellOf_mul (sweep : Sweep) (index : Nat) :
    sweep.cellOf (index * sweep.size : Nat) = index := by
  rw [cellOf, ← Int.natCast_ediv, Int.toNat_natCast]
  exact Nat.mul_div_cancel index (cellSize_pos sweep.set)

/-- At the offsets of cells the sweep finds the instructions of the image. -/
theorem Sweep.instruction?_ofImage (origin : UInt64) (code : List UInt8) (offset : Int)
    (hoffset : ((Sweep.ofImage set origin code).size : Int) ∣ offset) :
    (ofImage set origin code).instruction? offset = instructionAt? set code offset := by
  by_cases hnonneg : 0 ≤ offset
  · have hmod : offset % (ofImage set origin code).size = 0 := Int.emod_eq_zero_of_dvd hoffset
    rw [instruction?, if_pos ⟨hnonneg, hmod⟩]
    obtain ⟨offset, rfl⟩ := Int.eq_ofNat_of_zero_le hnonneg
    obtain ⟨index, rfl⟩ := Int.natCast_dvd_natCast.mp hoffset
    rw [Nat.mul_comm, cellOf_mul]
    refine Eq.trans ?_ (decoded_cells code index)
    exact congrArg (Option.bind · Cell.decoded) List.getElem?_toArray
  · rw [instruction?, if_neg (fun h => hnonneg h.1), instructionAt?, if_neg fun h => hnonneg h.1]

/-- A branch leads to the offset of a cell. -/
theorem Sweep.dvd_of_branchTarget? {sweep : Sweep} {decoded : Decoded} {target : Int}
    (h : sweep.branchTarget? decoded = some target) : (sweep.size : Int) ∣ target := by
  unfold branchTarget? at h
  split at h
  · obtain ⟨address, -, htarget⟩ := Option.bind_eq_some_iff.mp h
    dsimp only at htarget
    split at htarget
    · cases htarget
    · rename_i hstarts
      cases htarget
      exact Int.dvd_of_tmod_eq_zero (not_not.mp fun hmod => hstarts (.inr (.inr hmod)))
  · cases h

theorem follows_iff (origin : UInt64) (code : List UInt8) (offset next : Int)
    (hoffset : ((Sweep.ofImage set origin code).size : Int) ∣ offset) :
    Follows set origin code offset next ↔ (Sweep.ofImage set origin code).Steps offset next := by
  have hinstruction := Sweep.instruction?_ofImage origin code offset hoffset
  constructor
  · intro hstep
    cases hstep with
    | onward hdecoded hgoes => exact .onward (hinstruction.trans hdecoded) hgoes
    | branch hdecoded htarget => exact .branch (hinstruction.trans hdecoded) htarget
  · intro hstep
    cases hstep with
    | onward hdecoded hgoes => exact .onward (hinstruction.symm.trans hdecoded) hgoes
    | branch hdecoded htarget => exact .branch (hinstruction.symm.trans hdecoded) htarget

/-- Execution that starts at the first offset comes to offsets of cells only. -/
theorem Sweep.Reaches.dvd {sweep : Sweep} {offset : Int} (h : sweep.Reaches offset) :
    (sweep.size : Int) ∣ offset := by
  induction h with
  | refl => exact Int.dvd_zero _
  | tail _ hstep ih =>
    cases hstep with
    | onward => exact Int.dvd_add ih (Int.dvd_refl _)
    | branch _ htarget => exact dvd_of_branchTarget? htarget

theorem reaches_iff (origin : UInt64) (code : List UInt8) (offset : Int) :
    Relation.ReflTransGen (Follows set origin code) 0 offset ↔
      (Sweep.ofImage set origin code).Reaches offset := by
  constructor
  · intro h
    induction h with
    | refl => exact .refl
    | tail _ hstep ih => exact ih.tail ((follows_iff origin code _ _ ih.dvd).mp hstep)
  · intro h
    induction h with
    | refl => exact .refl
    | tail hreach hstep ih =>
      exact ih.tail ((follows_iff origin code _ _ (Sweep.Reaches.dvd hreach)).mpr hstep)

theorem isMarked_iff (origin : UInt64) (code : List UInt8) (offset : Int) :
    (Sweep.ofImage set origin code).walk.isMarked offset = true ↔
      Relation.ReflTransGen (Follows set origin code) 0 offset ∧
        (instructionAt? set code offset).isSome = true := by
  rw [Sweep.isMarked_walk_iff, reaches_iff]
  refine and_congr_right fun hreach => ?_
  rw [Sweep.instruction?_ofImage origin code offset hreach.dvd]

theorem mem_labels_iff (origin : UInt64) (code : List UInt8) (offset : Int) :
    offset ∈ (Sweep.ofImage set origin code).walk.labels ↔
      (Sweep.ofImage set origin code).walk.isMarked offset = true ∧
        ∃ source decoded, (Sweep.ofImage set origin code).walk.isMarked source = true ∧
          instructionAt? set code source = some decoded ∧
          (Sweep.ofImage set origin code).branchTarget? decoded = some offset := by
  rw [Sweep.mem_labels_walk_iff]
  refine and_congr_right fun _ => exists₂_congr fun source decoded => ?_
  refine and_congr_right fun hmarked => ?_
  have hreach := ((Sweep.isMarked_walk_iff _ source).mp hmarked).1
  rw [Sweep.instruction?_ofImage origin code source hreach.dvd]

/-- The mark of a cell is that of its offset. -/
theorem isCode_eq_isMarked (sweep : Sweep) (index : Nat) :
    sweep.walk.isCode index = sweep.walk.isMarked (index * sweep.size : Nat) := by
  rw [Bool.eq_iff_iff, Walk.isMarked, Bool.and_eq_true, Sweep.cellOf_mul, iff_and_self]
  intro hcode
  obtain ⟨offset, decoded, hdecoded, hcell⟩ := sweep.decodes_of_isCode index hcode
  rw [Int.natCast_mul, ← hcell, ← Sweep.offset_of_instruction hdecoded]
  exact Option.isSome_of_eq_some hdecoded

end Flow

/-- The listing of an image shows the marks and labels of its analysis. This marks the offsets that
decode and can be reached from the first one, and keeps labels at the marked offsets that marked
branches lead to. Every pass takes an offset from the queue and keeps the invariant, and the queue
is empty after at most two passes for each cell and one more. -/
theorem code_is_what_execution_reaches (set : InstructionSet) (origin : UInt64)
    (code : List UInt8) :
    let sweep := Flow.Sweep.ofImage set origin code
    (code ≠ [] → Listing.lines set origin code = Listing.originLines origin ++
      Listing.segmentLines ⟨set, origin, code.length, sweep.walk.labels.map sweep.cellOf⟩ 1
        (Listing.segments (fun index => sweep.walk.isMarked (index * sweep.size : Nat)) 0
          (Flow.cells set code))) ∧
    (∀ offset, sweep.walk.isMarked offset = true ↔
      Relation.ReflTransGen (Flow.Follows set origin code) 0 offset ∧
        (Flow.instructionAt? set code offset).isSome = true) ∧
    (∀ offset, offset ∈ sweep.walk.labels ↔ sweep.walk.isMarked offset = true ∧
      ∃ source decoded, sweep.walk.isMarked source = true ∧
        Flow.instructionAt? set code source = some decoded ∧
        sweep.branchTarget? decoded = some offset) ∧
    (∀ pass, (sweep.start.after pass).Explored) ∧
    ∃ count ≤ 1 + 2 * (Flow.cells set code).length,
      (∀ pass < count, (sweep.start.after pass).step? = some (sweep.start.after (pass + 1))) ∧
      (sweep.start.after count).queue.items = [] ∧
      sweep.walk = (sweep.start.after count).prune := by
  intro sweep
  refine ⟨?_, Flow.isMarked_iff origin code, Flow.mem_labels_iff origin code,
    (Flow.Walk.explored_start sweep).after, ?_⟩
  · intro hcode
    rw [Listing.lines, if_neg fun h => hcode (List.isEmpty_iff.mp h)]
    simp only [← Flow.isCode_eq_isMarked]
    rfl
  · obtain ⟨count, hcount, hpasses, hend, hrun⟩ := sweep.start.exists_passes
    rw [Flow.Sweep.left_start] at hcount
    refine ⟨count, hcount, hpasses, Flow.Walk.items_of_step? hend, ?_⟩
    rw [hrun]
    rfl

/-- A conditional branch over a return to a branch back to it, with code that is never reached
behind the return and behind a word that does not decode. -/
def branchOverReturn : List UInt8 :=
  [0x78, 0x86, 0x88, 0x00, 0x50, 0x00, 0x78, 0x02, 0xff, 0xff, 0x50, 0x00]

theorem branchOverReturn_reached :
    Relation.ReflTransGen (Flow.Follows Zirc16.table 0 branchOverReturn) 0 6 ∧
      (∃ source decoded, (Flow.Sweep.ofImage Zirc16.table 0 branchOverReturn).walk.isMarked source =
          true ∧ Flow.instructionAt? Zirc16.table branchOverReturn source = some decoded ∧
        (Flow.Sweep.ofImage Zirc16.table 0 branchOverReturn).branchTarget? decoded = some 2) ∧
      (Flow.instructionAt? Zirc16.table branchOverReturn 4).isSome = true ∧
      ¬ Relation.ReflTransGen (Flow.Follows Zirc16.table 0 branchOverReturn) 0 4 ∧
      ¬ Relation.ReflTransGen (Flow.Follows Zirc16.table 0 branchOverReturn) 0 10 := by
  obtain ⟨-, hmarked, hlabels, -⟩ :=
    code_is_what_execution_reaches Zirc16.table 0 branchOverReturn
  have hdecodes : (Flow.instructionAt? Zirc16.table branchOverReturn 4).isSome = true := by
    decide +kernel
  have hlast : (Flow.instructionAt? Zirc16.table branchOverReturn 10).isSome = true := by
    decide +kernel
  refine ⟨((hmarked 6).mp (by decide +kernel)).1, ?_, hdecodes, ?_, ?_⟩
  · exact ((hlabels 2).mp (by decide +kernel)).2
  · intro hreach
    exact absurd ((hmarked 4).mpr ⟨hreach, hdecodes⟩) (by decide +kernel)
  · intro hreach
    exact absurd ((hmarked 10).mpr ⟨hreach, hlast⟩) (by decide +kernel)

-- a branch to the instruction behind it is seen twice and waits once
example :
    ((Flow.Sweep.ofImage Zirc16.table 0 [0x78, 0x02, 0x50, 0x00]).start.after 1).queue.items =
      [2] := by
  decide +kernel

end WordAsm
