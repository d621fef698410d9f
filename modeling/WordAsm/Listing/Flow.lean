import WordAsm.Listing.Chunk
import WordAsm.Listing.Decoder

/-! Control flow of an image. The image is cut into cells of one instruction each, and offsets count
its bytes. A queue takes the first offset and every one that execution can go on to, each of them
once: an instruction that is taken from it is marked as code, and the offset behind it is queued,
unless it is terminal, and the one that it branches to, which also gets a label. Labels where no
code turned up are dropped in the end. Addresses count words of sixteen bits from the origin, and
the distance of a branch target is a signed number of bytes modulo `2 ^ 64`. -/

namespace WordAsm

structure Cell where
  bytes : List UInt8
  decoded : Option Decoded
  deriving DecidableEq, Repr

namespace Flow

/-- The bytes of an instruction. -/
def cellSize (set : InstructionSet) : Nat :=
  set.width / 8

/-- Cuts an image into cells; bytes left over at its end form a cell that does not decode. -/
def cells (set : InstructionSet) (code : List UInt8) : List Cell :=
  let formats := Decoder.candidates set
  (chunks (cellSize set) code).map fun bytes =>
    if bytes.length = cellSize set then
      ⟨bytes, Decoder.decodeIn set formats (Word.decode set.width bytes)⟩
    else ⟨bytes, none⟩

/-- How many bytes an address lies behind the origin, as a signed word. -/
def offsetOf (origin address : UInt64) : Int :=
  ((address - origin).toInt64 * 2).toInt

/-- The cell at an address, if a cell of an image of `length` bytes starts there. -/
def cellAt? (size length : Nat) (origin address : UInt64) : Option Nat :=
  let offset := offsetOf origin address
  if origin ≤ address ∧ 0 ≤ offset ∧ offset < length ∧ offset % size = 0 then
    some (offset / size).toNat
  else none

/-- The address of a cell. -/
def addressOf (size : Nat) (origin : UInt64) (index : Nat) : UInt64 :=
  origin + UInt64.ofNat (index * size / 2)

/-- The value of the first immediate of an instruction. -/
def firstImmediate? (decoded : Decoded) : Option UInt64 :=
  (decoded.format.slots.zip decoded.fields).findSome? fun
    | (.immediate _, value) => some value
    | _ => none

/-- An image of `length` bytes that is loaded at `origin`, cut into cells. -/
structure Sweep where
  set : InstructionSet
  origin : UInt64
  length : Nat
  cells : Array Cell

namespace Sweep

def ofImage (set : InstructionSet) (origin : UInt64) (code : List UInt8) : Sweep :=
  ⟨set, origin, code.length, (Flow.cells set code).toArray⟩

def size (sweep : Sweep) : Nat :=
  cellSize sweep.set

/-- The cell that starts at an offset. -/
def cellOf (sweep : Sweep) (offset : Int) : Nat :=
  (offset / sweep.size).toNat

/-- The instruction at an offset, if a cell starts there and decodes. -/
def instruction? (sweep : Sweep) (offset : Int) : Option Decoded :=
  if 0 ≤ offset ∧ offset % sweep.size = 0 then
    sweep.cells[sweep.cellOf offset]?.bind Cell.decoded
  else none

/-- The offset that an instruction branches to, if it does not lie behind the image. An address that
is too far off may lead in front of it. -/
def branchTarget? (sweep : Sweep) (decoded : Decoded) : Option Int :=
  if sweep.set.isBranch decoded.mnemonic then
    (firstImmediate? decoded).bind fun address =>
      let offset := offsetOf sweep.origin address
      if address < sweep.origin ∨ sweep.length ≤ offset ∨ offset.tmod sweep.size ≠ 0 then none
      else some offset
  else none

/-- An instruction is that of the cell at its offset. -/
theorem cell_of_instruction {sweep : Sweep} {offset : Int} {decoded : Decoded}
    (h : sweep.instruction? offset = some decoded) :
    ∃ cell, sweep.cells[sweep.cellOf offset]? = some cell ∧ cell.decoded = some decoded := by
  unfold instruction? at h
  split at h
  · exact Option.bind_eq_some_iff.mp h
  · cases h

end Sweep

/-- A queue of offsets: those that wait for their turn, each of them once, and all that ever did. -/
structure Queue where
  items : List Int
  seen : List Int
  nodup : items.Nodup
  items_seen : items ⊆ seen

namespace Queue

def empty : Queue :=
  ⟨[], [], List.nodup_nil, List.nil_subset []⟩

/-- Puts an offset behind those that wait, unless it has been in the queue before. -/
def push (queue : Queue) (offset : Int) : Queue :=
  if h : offset ∈ queue.seen then queue
  else {
    items := queue.items ++ [offset]
    seen := offset :: queue.seen
    nodup := by
      rw [List.nodup_append]
      refine ⟨queue.nodup, List.pairwise_singleton _ _, ?_⟩
      intro waiting hwaiting other hother heq
      rw [heq, List.mem_singleton.mp hother] at hwaiting
      exact h (queue.items_seen hwaiting)
    items_seen := by
      intro waiting hwaiting
      rcases List.mem_append.mp hwaiting with hwaiting | hwaiting
      · exact List.mem_cons_of_mem offset (queue.items_seen hwaiting)
      · exact List.mem_cons.mpr (.inl (List.mem_singleton.mp hwaiting)) }

/-- Takes the offset that has waited longest. -/
def pop? (queue : Queue) : Option (Int × Queue) :=
  match h : queue.items with
  | [] => none
  | offset :: rest => some (offset, {
      items := rest
      seen := queue.seen
      nodup := (List.nodup_cons.mp (h ▸ queue.nodup)).2
      items_seen := fun _ hwaiting =>
        queue.items_seen (h ▸ List.mem_cons_of_mem offset hwaiting) })

theorem length_push_le (queue : Queue) (offset : Int) :
    (queue.push offset).items.length ≤ queue.items.length + 1 := by
  unfold push
  split
  · exact Nat.le_add_right _ 1
  · exact Nat.le_of_eq List.length_append

theorem pop?_eq_none_iff (queue : Queue) : queue.pop? = none ↔ queue.items = [] := by
  unfold pop?
  split
  · simp [*]
  · simp [*]

/-- What is taken has waited at the front, and nothing else changes. -/
theorem pop?_eq_some {queue rest : Queue} {offset : Int}
    (h : queue.pop? = some (offset, rest)) :
    queue.items = offset :: rest.items ∧ rest.seen = queue.seen := by
  unfold pop? at h
  split at h
  · cases h
  · rename_i hitems
    cases h
    exact ⟨hitems, rfl⟩

end Queue

/-- How far the analysis of an image has got: the offsets still to be looked at, for every cell
whether it is marked as code, and the offsets that branches lead to. -/
structure Walk (sweep : Sweep) where
  queue : Queue
  marks : Array Bool
  labels : List Int
  size_marks : marks.size = sweep.cells.size

namespace Walk

variable {sweep : Sweep}

/-- The cell is marked as code. -/
def isCode (walk : Walk sweep) (index : Nat) : Bool :=
  walk.marks[index]?.getD false

/-- Marks the instruction at an offset and queues what can follow it. -/
def visit (walk : Walk sweep) (offset : Int) (decoded : Decoded) : Walk sweep :=
  let onward :=
    if sweep.set.isTerminal decoded.mnemonic then walk.queue
    else walk.queue.push (offset + sweep.size)
  let target? := sweep.branchTarget? decoded
  { queue := target?.elim onward onward.push
    marks := walk.marks.setIfInBounds (sweep.cellOf offset) true
    labels := target?.toList ++ walk.labels
    size_marks := Array.size_setIfInBounds.trans walk.size_marks }

/-- Takes an offset from the queue and visits the instruction there, unless there is none or it is
marked already. -/
def step? (walk : Walk sweep) : Option (Walk sweep) :=
  walk.queue.pop?.map fun (offset, queue) =>
    let walk := { walk with queue }
    match sweep.instruction? offset with
    | some decoded =>
      if walk.isCode (sweep.cellOf offset) then walk else walk.visit offset decoded
    | none => walk

/-- What is left to do: the offsets that wait, and two that each cell may add when it is marked. -/
def left (walk : Walk sweep) : Nat :=
  walk.queue.items.length + 2 * walk.marks.count false

theorem count_mark_lt {marks : Array Bool} {index : Nat} (h : marks[index]? = some false) :
    (marks.setIfInBounds index true).count false < marks.count false := by
  obtain ⟨hi, hv⟩ := Array.getElem?_eq_some_iff.mp h
  have hpos : 0 < marks.count false := Array.count_pos_iff.mpr (hv ▸ Array.getElem_mem hi)
  rw [Array.setIfInBounds, dif_pos hi, Array.count_set hi, hv]
  change marks.count false - 1 + 0 < marks.count false
  omega

/-- Every cell with an instruction has a mark. -/
theorem getElem?_marks (walk : Walk sweep) {offset : Int} {decoded : Decoded}
    (h : sweep.instruction? offset = some decoded) :
    walk.marks[sweep.cellOf offset]? = some (walk.isCode (sweep.cellOf offset)) := by
  obtain ⟨cell, hcell, -⟩ := Sweep.cell_of_instruction h
  have hlt : sweep.cellOf offset < walk.marks.size := by
    rw [walk.size_marks]
    exact (Array.getElem?_eq_some_iff.mp hcell).1
  rw [isCode, Array.getElem?_eq_getElem hlt]
  rfl

theorem length_visit_le (walk : Walk sweep) (offset : Int) (decoded : Decoded) :
    (walk.visit offset decoded).queue.items.length ≤ walk.queue.items.length + 2 := by
  have honward : (if sweep.set.isTerminal decoded.mnemonic then walk.queue
      else walk.queue.push (offset + sweep.size)).items.length ≤ walk.queue.items.length + 1 := by
    split
    · exact Nat.le_add_right _ 1
    · exact walk.queue.length_push_le _
  rw [visit]
  cases sweep.branchTarget? decoded with
  | none => exact Nat.le_succ_of_le honward
  | some target => exact Nat.le_trans (Queue.length_push_le _ target) (Nat.succ_le_succ honward)

theorem left_step_lt {walk next : Walk sweep} (h : walk.step? = some next) :
    next.left < walk.left := by
  obtain ⟨⟨offset, queue⟩, hpop, rfl⟩ := Option.map_eq_some_iff.mp h
  have hlength : walk.queue.items.length = queue.items.length + 1 := by
    rw [(Queue.pop?_eq_some hpop).1, List.length_cons]
  have htaken : left { walk with queue } < walk.left := by
    change queue.items.length + 2 * walk.marks.count false <
      walk.queue.items.length + 2 * walk.marks.count false
    omega
  dsimp only
  split
  · rename_i decoded hdecoded
    split
    · exact htaken
    · -- the cell is marked now, which makes up for the two offsets
      rename_i hcode
      have hmark := walk.getElem?_marks hdecoded
      rw [Bool.not_eq_true] at hcode
      rw [show walk.isCode _ = false from hcode] at hmark
      have hcount := count_mark_lt hmark
      have htwo := length_visit_le { walk with queue } offset decoded
      change (visit { walk with queue } offset decoded).queue.items.length +
        2 * (walk.marks.setIfInBounds (sweep.cellOf offset) true).count false < walk.left
      rw [left]
      dsimp only at htwo
      omega
  · exact htaken

/-- Goes on until the queue is empty. -/
def run (walk : Walk sweep) : Walk sweep :=
  match _ : walk.step? with
  | some next => next.run
  | none => walk
termination_by walk.left
decreasing_by exact left_step_lt ‹_›

/-- An instruction starts at the offset, and it is marked as code. -/
def isMarked (walk : Walk sweep) (offset : Int) : Bool :=
  (sweep.instruction? offset).isSome && walk.isCode (sweep.cellOf offset)

/-- Drops the labels where no code turned up. -/
def prune (walk : Walk sweep) : Walk sweep :=
  { walk with labels := walk.labels.filter walk.isMarked }

end Walk

namespace Sweep

/-- The analysis starts with the first offset, and nothing marked. -/
def start (sweep : Sweep) : Walk sweep where
  queue := Queue.empty.push 0
  marks := Array.replicate sweep.cells.size false
  labels := []
  size_marks := Array.size_replicate

/-- The analysis of an image. -/
def walk (sweep : Sweep) : Walk sweep :=
  sweep.start.run.prune

end Sweep

end Flow

end WordAsm
