import Mathlib.Algebra.Group.Int.Defs
import Mathlib.Algebra.Group.Nat.Defs
import Mathlib.Logic.Relation
import WordAsm.Listing.Flow

/-! The analysis of control flow. The queue takes an offset once, so an instruction that is taken
from it has not been marked, and marking it puts all that can follow it among the offsets seen. When
the queue is empty, the offsets seen are those that execution can come to from the first one; the
instructions among them are marked, and their branch targets are the labels. -/

namespace WordAsm.Flow

/-- The bytes from the origin to an address are counted modulo the range of signed words. -/
theorem offsetOf_eq_bmod (origin address : UInt64) :
    offsetOf origin address = (((address - origin) * 2).toNat : Int).bmod (2 ^ 64) := by
  have hmul : (address - origin).toInt64 * 2 = ((address - origin) * 2).toInt64 :=
    (UInt64.toInt64_mul (address - origin) 2).symm
  rw [offsetOf, hmul]
  exact BitVec.toInt_eq_toNat_bmod _

theorem offsetOf_of_nonneg (origin address : UInt64) (h : 0 ≤ offsetOf origin address) :
    offsetOf origin address = ((address - origin) * 2).toNat := by
  have hlt : ((address - origin) * 2).toNat < 2 ^ 64 := ((address - origin) * 2).toNat_lt
  rw [offsetOf_eq_bmod, Int.bmod_def] at h ⊢
  split at h
  · rename_i hlow
    rw [if_pos hlow]
    omega
  · omega

theorem offsetOf_lt (origin address : UInt64) : offsetOf origin address < 2 ^ 63 :=
  Int64.toInt_lt _

namespace Queue

/-- The offset has been taken from the queue. -/
def Taken (queue : Queue) (offset : Int) : Prop :=
  offset ∈ queue.seen ∧ offset ∉ queue.items

@[simp]
theorem mem_seen_push (queue : Queue) (offset other : Int) :
    other ∈ (queue.push offset).seen ↔ other = offset ∨ other ∈ queue.seen := by
  unfold push
  split
  · rename_i hseen
    simp only [iff_or_self]
    exact fun heq => heq ▸ hseen
  · exact List.mem_cons

/-- What is put into a queue does not count as taken from it. -/
@[simp]
theorem taken_push (queue : Queue) (offset other : Int) :
    (queue.push offset).Taken other ↔ queue.Taken other := by
  unfold push
  split
  · rfl
  · rename_i hnew
    change (other ∈ offset :: queue.seen ∧ other ∉ queue.items ++ [offset]) ↔ queue.Taken other
    rw [List.mem_cons, List.mem_append, List.mem_singleton, Taken]
    by_cases heq : other = offset
    · simp [heq, hnew]
    · simp [heq]

/-- An offset is taken once, because it waits once. -/
theorem taken_of_pop? {queue rest : Queue} {offset : Int}
    (h : queue.pop? = some (offset, rest)) (other : Int) :
    rest.Taken other ↔ other = offset ∨ queue.Taken other := by
  obtain ⟨hitems, hseen⟩ := pop?_eq_some h
  have hgone : offset ∉ rest.items := (List.nodup_cons.mp (hitems ▸ queue.nodup)).1
  have hoffset : offset ∈ queue.seen := queue.items_seen (hitems ▸ List.mem_cons_self)
  rw [Taken, Taken, hseen, hitems, List.mem_cons]
  by_cases heq : other = offset
  · simp [heq, hoffset, hgone]
  · simp [heq]

theorem not_taken_of_pop? {queue rest : Queue} {offset : Int}
    (h : queue.pop? = some (offset, rest)) : ¬ queue.Taken offset := by
  intro htaken
  apply htaken.2
  rw [(pop?_eq_some h).1]
  exact List.mem_cons_self

end Queue

namespace Sweep

/-- Execution can go on from one offset to another. -/
inductive Steps (sweep : Sweep) : Int → Int → Prop where
  | onward {offset : Int} {decoded : Decoded} (hdecoded : sweep.instruction? offset = some decoded)
    (hgoes : sweep.set.isTerminal decoded.mnemonic = false) :
    Steps sweep offset (offset + sweep.size)
  | branch {offset target : Int} {decoded : Decoded}
    (hdecoded : sweep.instruction? offset = some decoded)
    (htarget : sweep.branchTarget? decoded = some target) : Steps sweep offset target

/-- Execution that starts at the first offset can come to an offset. -/
def Reaches (sweep : Sweep) (offset : Int) : Prop :=
  Relation.ReflTransGen sweep.Steps 0 offset

variable {sweep : Sweep}

theorem steps_iff {offset : Int} {decoded : Decoded}
    (hdecoded : sweep.instruction? offset = some decoded) (next : Int) :
    sweep.Steps offset next ↔
      sweep.set.isTerminal decoded.mnemonic = false ∧ next = offset + sweep.size ∨
        sweep.branchTarget? decoded = some next := by
  constructor
  · intro hstep
    cases hstep with
    | onward hfound hgoes =>
      cases hdecoded.symm.trans hfound
      exact .inl ⟨hgoes, rfl⟩
    | branch hfound htarget =>
      cases hdecoded.symm.trans hfound
      exact .inr htarget
  · rintro (⟨hgoes, rfl⟩ | htarget)
    · exact .onward hdecoded hgoes
    · exact .branch hdecoded htarget

/-- An instruction starts where its cell does. -/
theorem offset_of_instruction {offset : Int} {decoded : Decoded}
    (h : sweep.instruction? offset = some decoded) :
    offset = sweep.cellOf offset * sweep.size := by
  unfold instruction? at h
  split at h
  · rename_i hstarts
    obtain ⟨hnonneg, hmod⟩ := hstarts
    rw [cellOf, Int.toNat_of_nonneg (Int.ediv_nonneg hnonneg (Int.natCast_nonneg _)),
      Int.ediv_mul_cancel (Int.dvd_of_emod_eq_zero hmod)]
  · cases h

/-- A branch target is counted in signed words. -/
theorem lt_of_branchTarget? {decoded : Decoded} {target : Int}
    (h : sweep.branchTarget? decoded = some target) : target < 2 ^ 63 := by
  unfold branchTarget? at h
  split at h
  · obtain ⟨address, -, htarget⟩ := Option.bind_eq_some_iff.mp h
    dsimp only at htarget
    split at htarget
    · cases htarget
    · cases htarget
      exact offsetOf_lt _ _
  · cases h

theorem eq_of_cellOf_eq {offset other : Int} {decoded decoded' : Decoded}
    (h : sweep.instruction? offset = some decoded) (h' : sweep.instruction? other = some decoded')
    (hcell : sweep.cellOf offset = sweep.cellOf other) : offset = other := by
  rw [offset_of_instruction h, offset_of_instruction h', hcell]

end Sweep

namespace Walk

variable {sweep : Sweep} {walk next : Walk sweep} {offset : Int} {decoded : Decoded}

/-- A visit marks one cell. -/
theorem isCode_visit (h : sweep.instruction? offset = some decoded) (index : Nat) :
    (walk.visit offset decoded).isCode index = true ↔
      index = sweep.cellOf offset ∨ walk.isCode index = true := by
  have hmark := walk.getElem?_marks h
  have hlt := (Array.getElem?_eq_some_iff.mp hmark).1
  rw [isCode, visit, Array.getElem?_setIfInBounds]
  by_cases hindex : sweep.cellOf offset = index
  · rw [if_pos hindex, if_pos (hindex ▸ hlt)]
    simp [hindex]
  · rw [if_neg hindex]
    simp [Ne.symm hindex, isCode]

/-- After a visit all that can follow has been seen. -/
theorem mem_seen_visit (walk : Walk sweep) (h : sweep.instruction? offset = some decoded)
    (other : Int) :
    other ∈ (walk.visit offset decoded).queue.seen ↔
      other ∈ walk.queue.seen ∨ sweep.Steps offset other := by
  rw [Sweep.steps_iff h, visit]
  have honward : other ∈ (if sweep.set.isTerminal decoded.mnemonic then walk.queue
      else walk.queue.push (offset + sweep.size)).seen ↔ other ∈ walk.queue.seen ∨
        sweep.set.isTerminal decoded.mnemonic = false ∧ other = offset + sweep.size := by
    split
    · rename_i hterminal
      simp [hterminal]
    · rename_i hgoes
      simp [hgoes, or_comm]
  cases sweep.branchTarget? decoded with
  | none => simpa using honward
  | some target =>
    rw [Option.elim_some, Queue.mem_seen_push, honward, Option.some_inj, eq_comm]
    exact or_comm.trans or_assoc

theorem taken_visit (other : Int) :
    (walk.visit offset decoded).queue.Taken other ↔ walk.queue.Taken other := by
  have honward : (if sweep.set.isTerminal decoded.mnemonic then walk.queue
      else walk.queue.push (offset + sweep.size)).Taken other ↔ walk.queue.Taken other := by
    split
    · rfl
    · exact Queue.taken_push _ _ _
  rw [visit]
  cases sweep.branchTarget? decoded with
  | none => exact honward
  | some target => exact (Queue.taken_push _ _ _).trans honward

/-- What every pass keeps. The offsets seen can be reached, and with an offset that was taken all
that can follow it is among them. An instruction is marked when its offset is taken, and the labels
are the branch targets of what is marked. -/
structure Explored (walk : Walk sweep) : Prop where
  start : 0 ∈ walk.queue.seen
  reached : ∀ offset ∈ walk.queue.seen, sweep.Reaches offset
  closed : ∀ offset, walk.queue.Taken offset → ∀ next, sweep.Steps offset next →
    next ∈ walk.queue.seen
  marked_iff : ∀ offset decoded, sweep.instruction? offset = some decoded →
    (walk.isCode (sweep.cellOf offset) = true ↔ walk.queue.Taken offset)
  decodes : ∀ index, walk.isCode index = true →
    ∃ offset decoded, sweep.instruction? offset = some decoded ∧ sweep.cellOf offset = index
  labels_iff : ∀ target, target ∈ walk.labels ↔
    ∃ offset decoded, sweep.instruction? offset = some decoded ∧ walk.queue.Taken offset ∧
      sweep.branchTarget? decoded = some target

/-- Nothing has been taken before the first pass. -/
theorem explored_start (sweep : Sweep) : sweep.start.Explored := by
  have hseen (offset : Int) : offset ∈ sweep.start.queue.seen ↔ offset = 0 := by
    rw [Sweep.start, Queue.mem_seen_push, or_iff_left]
    exact List.not_mem_nil
  have htaken (offset : Int) : ¬ sweep.start.queue.Taken offset := by
    rw [Sweep.start, Queue.taken_push]
    exact fun h => List.not_mem_nil h.1
  have hcode (index : Nat) : sweep.start.isCode index = false := by
    rw [isCode, Sweep.start, Array.getElem?_replicate]
    split
    · rfl
    · rfl
  constructor
  case start => rw [hseen]
  case reached =>
    intro offset hoffset
    rw [(hseen offset).mp hoffset]
    exact .refl
  case closed => exact fun offset h => absurd h (htaken offset)
  case marked_iff => simp [hcode, htaken]
  case decodes => simp [hcode]
  case labels_iff =>
    intro target
    change target ∈ [] ↔ _
    simp [htaken]

/-- Taking an offset at which no instruction starts changes nothing but the queue. -/
theorem Explored.skip (h : walk.Explored) {queue : Queue}
    (hpop : walk.queue.pop? = some (offset, queue)) (hnone : sweep.instruction? offset = none) :
    Explored { walk with queue } := by
  have htaken := Queue.taken_of_pop? hpop
  have hseen := (Queue.pop?_eq_some hpop).2
  -- where an instruction starts, it makes no difference that this offset has been taken
  have hsame (other : Int) (decoded : Decoded)
      (hdecoded : sweep.instruction? other = some decoded) :
      queue.Taken other ↔ walk.queue.Taken other := by
    rw [htaken, or_iff_right]
    rintro rfl
    cases hnone.symm.trans hdecoded
  constructor
  case start => exact hseen ▸ h.start
  case reached => exact hseen ▸ h.reached
  case closed =>
    intro other hother next hstep
    change next ∈ queue.seen
    rw [hseen]
    apply h.closed other _ next hstep
    cases hstep with
    | onward hdecoded _ => exact (hsame other _ hdecoded).mp hother
    | branch hdecoded _ => exact (hsame other _ hdecoded).mp hother
  case marked_iff =>
    intro other decoded hdecoded
    exact (h.marked_iff other decoded hdecoded).trans (hsame other decoded hdecoded).symm
  case decodes => exact h.decodes
  case labels_iff =>
    intro target
    refine (h.labels_iff target).trans ?_
    refine exists₂_congr fun other decoded => and_congr_right fun hdecoded => ?_
    rw [hsame other decoded hdecoded]

/-- Visiting an instruction keeps the invariant, with its offset among those taken. -/
theorem Explored.visit (h : walk.Explored) {queue : Queue}
    (hpop : walk.queue.pop? = some (offset, queue))
    (hdecoded : sweep.instruction? offset = some decoded) :
    (Walk.visit { walk with queue } offset decoded).Explored := by
  obtain ⟨hitems, hseenPop⟩ := Queue.pop?_eq_some hpop
  have hseen (other : Int) := mem_seen_visit { walk with queue } hdecoded other
  have htaken (other : Int) :
      (Walk.visit { walk with queue } offset decoded).queue.Taken other ↔
        other = offset ∨ walk.queue.Taken other :=
    (taken_visit other).trans (Queue.taken_of_pop? hpop other)
  simp only [hseenPop] at hseen
  have hoffset : sweep.Reaches offset := by
    apply h.reached offset (walk.queue.items_seen _)
    rw [hitems]
    exact List.mem_cons_self
  constructor
  case start => exact (hseen 0).mpr (.inl h.start)
  case reached =>
    intro other hother
    rcases (hseen other).mp hother with hold | hstep
    · exact h.reached other hold
    · exact hoffset.tail hstep
  case closed =>
    intro other hother next hstep
    rw [hseen]
    rcases (htaken other).mp hother with rfl | hold
    · exact .inr hstep
    · exact .inl (h.closed other hold next hstep)
  case marked_iff =>
    intro other found hfound
    rw [isCode_visit hdecoded, htaken]
    refine or_congr ⟨Sweep.eq_of_cellOf_eq hfound hdecoded, ?_⟩ (h.marked_iff other found hfound)
    exact congrArg sweep.cellOf
  case decodes =>
    intro index hindex
    rcases (isCode_visit hdecoded index).mp hindex with rfl | hold
    · exact ⟨offset, decoded, hdecoded, rfl⟩
    · exact h.decodes index hold
  case labels_iff =>
    intro target
    change target ∈ (sweep.branchTarget? decoded).toList ++ walk.labels ↔ _
    rw [List.mem_append, Option.mem_toList, h.labels_iff]
    constructor
    · rintro (htarget | ⟨other, found, hfound, hother, htarget⟩)
      · exact ⟨offset, decoded, hdecoded, (htaken _).mpr (.inl rfl), htarget⟩
      · exact ⟨other, found, hfound, (htaken _).mpr (.inr hother), htarget⟩
    · rintro ⟨other, found, hfound, hother, htarget⟩
      rcases (htaken other).mp hother with rfl | hold
      · cases hdecoded.symm.trans hfound
        exact .inl htarget
      · exact .inr ⟨other, found, hfound, hold, htarget⟩

/-- An instruction that is taken from the queue has not been marked before. -/
theorem Explored.isCode_of_pop? (h : walk.Explored) {queue : Queue}
    (hpop : walk.queue.pop? = some (offset, queue))
    (hdecoded : sweep.instruction? offset = some decoded) :
    walk.isCode (sweep.cellOf offset) = false := by
  rw [← Bool.not_eq_true, h.marked_iff offset decoded hdecoded]
  exact Queue.not_taken_of_pop? hpop

theorem Explored.step (h : walk.Explored) (hstep : walk.step? = some next) : next.Explored := by
  obtain ⟨⟨offset, queue⟩, hpop, rfl⟩ := Option.map_eq_some_iff.mp hstep
  dsimp only
  split
  · rename_i decoded hdecoded
    rw [if_neg]
    · exact h.visit hpop hdecoded
    · exact ne_true_of_eq_false (h.isCode_of_pop? hpop hdecoded)
  · rename_i hnone
    exact h.skip hpop hnone

/-- The walk after a number of passes; one that has ended stays as it is. -/
def after (walk : Walk sweep) : Nat → Walk sweep
  | 0 => walk
  | count + 1 => (walk.after count).step?.getD (walk.after count)

theorem Explored.after (h : walk.Explored) (count : Nat) : (walk.after count).Explored := by
  induction count with
  | zero => exact h
  | succ count ih =>
    rw [Walk.after]
    cases hstep : (walk.after count).step? with
    | none => exact ih
    | some next => exact ih.step hstep

theorem after_step (hstep : walk.step? = some next) (count : Nat) :
    walk.after (count + 1) = next.after count := by
  induction count with
  | zero => rw [after, after, after, hstep, Option.getD_some]
  | succ count ih => rw [after, ih, after]

/-- The analysis ends after no more passes than were left, and that is what running it gives. -/
theorem exists_passes (walk : Walk sweep) :
    ∃ count ≤ walk.left,
      (∀ pass < count, (walk.after pass).step? = some (walk.after (pass + 1))) ∧
      (walk.after count).step? = none ∧ walk.after count = walk.run := by
  fun_induction run walk with
  | case1 walk next hstep ih =>
    obtain ⟨count, hle, hpasses, hend, hrun⟩ := ih
    have hlt := left_step_lt hstep
    refine ⟨count + 1, by omega, ?_, ?_, ?_⟩
    · intro pass hpass
      cases pass with
      | zero => rw [after_step hstep, after, after, hstep]
      | succ pass =>
        rw [after_step hstep, after_step hstep]
        exact hpasses pass (by omega)
    · rw [after_step hstep, hend]
    · rw [after_step hstep, hrun]
  | case2 walk hstep =>
    exact ⟨0, Nat.zero_le _, fun pass hpass => absurd hpass (Nat.not_lt_zero pass), hstep, rfl⟩

theorem items_of_step? (h : walk.step? = none) : walk.queue.items = [] := by
  rw [← Queue.pop?_eq_none_iff]
  exact Option.map_eq_none_iff.mp h

/-- With nothing left in the queue, what has been taken is what can be reached. -/
theorem Explored.taken_iff (h : walk.Explored) (hend : walk.step? = none) (offset : Int) :
    walk.queue.Taken offset ↔ sweep.Reaches offset := by
  have hitems := items_of_step? hend
  have htaken (offset : Int) : walk.queue.Taken offset ↔ offset ∈ walk.queue.seen := by
    rw [Queue.Taken, hitems, and_iff_left]
    exact List.not_mem_nil
  refine ⟨fun htaken => h.reached offset htaken.1, ?_⟩
  intro hreach
  rw [htaken]
  induction hreach with
  | refl => exact h.start
  | @tail before offset _ hstep ih => exact h.closed before ((htaken before).mpr ih) offset hstep

end Walk

namespace Sweep

variable (sweep : Sweep)

theorem explored_run : sweep.start.run.Explored ∧ sweep.start.run.step? = none := by
  obtain ⟨count, -, -, hend, hrun⟩ := sweep.start.exists_passes
  rw [← hrun]
  exact ⟨(Walk.explored_start sweep).after count, hend⟩

theorem left_start : sweep.start.left = 1 + 2 * sweep.cells.size := by
  rw [Walk.left, start, Array.count_replicate_self]
  rfl

/-- The analysis marks the instructions that can be reached. -/
theorem isCode_walk_iff (offset : Int) (decoded : Decoded)
    (h : sweep.instruction? offset = some decoded) :
    sweep.walk.isCode (sweep.cellOf offset) = true ↔ sweep.Reaches offset := by
  obtain ⟨hexplored, hend⟩ := sweep.explored_run
  exact (hexplored.marked_iff offset decoded h).trans (hexplored.taken_iff hend offset)

theorem isMarked_walk_iff (offset : Int) :
    sweep.walk.isMarked offset = true ↔
      sweep.Reaches offset ∧ (sweep.instruction? offset).isSome = true := by
  rw [Walk.isMarked, Bool.and_eq_true, and_comm]
  refine and_congr_left fun hsome => ?_
  obtain ⟨decoded, hdecoded⟩ := Option.isSome_iff_exists.mp hsome
  exact sweep.isCode_walk_iff offset decoded hdecoded

/-- Only cells with an instruction are marked. -/
theorem decodes_of_isCode (index : Nat) (h : sweep.walk.isCode index = true) :
    ∃ offset decoded, sweep.instruction? offset = some decoded ∧ sweep.cellOf offset = index :=
  sweep.explored_run.1.decodes index h

/-- The labels that are kept are the marked branch targets of marked instructions. -/
theorem mem_labels_walk_iff (target : Int) :
    target ∈ sweep.walk.labels ↔ sweep.walk.isMarked target = true ∧
      ∃ source decoded, sweep.walk.isMarked source = true ∧
        sweep.instruction? source = some decoded ∧ sweep.branchTarget? decoded = some target := by
  obtain ⟨hexplored, hend⟩ := sweep.explored_run
  change target ∈ sweep.start.run.labels.filter sweep.walk.isMarked ↔ _
  rw [List.mem_filter, and_comm, hexplored.labels_iff]
  refine and_congr_right fun _ => exists₂_congr fun source decoded => ?_
  rw [hexplored.taken_iff hend, isMarked_walk_iff]
  constructor
  · rintro ⟨hdecoded, hreach, htarget⟩
    exact ⟨⟨hreach, Option.isSome_of_eq_some hdecoded⟩, hdecoded, htarget⟩
  · rintro ⟨⟨hreach, -⟩, hdecoded, htarget⟩
    exact ⟨hdecoded, hreach, htarget⟩

end Sweep

end WordAsm.Flow
