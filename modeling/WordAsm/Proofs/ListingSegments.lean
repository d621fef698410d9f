import WordAsm.Proofs.ListingCode
import WordAsm.Proofs.ListingLayout

/-! Segments of a listing. An image is cut into cells, all of them full but for the last one, and
its segments cover the cells in order, code one cell at a time and data in runs. A cell of code that
decodes is never swallowed by a run. -/

namespace WordAsm

/-- Every chunk but the last one is full. -/
theorem length_of_mem_chunks {α : Type} (size : Nat) (hsize : 0 < size) (list : List α)
    (front rest : List (List α)) (h : chunks size list = front ++ rest) (hrest : rest ≠ []) :
    ∀ chunk ∈ front, chunk.length = size := by
  fun_induction chunks size list generalizing front with
  | case1 => exact absurd (List.append_eq_nil_iff.mp h.symm).2 hrest
  | case2 head tail ih =>
    cases front with
    | nil => exact fun chunk hmem => by cases hmem
    | cons first front =>
      obtain ⟨rfl, hlater⟩ := List.cons.inj h
      -- more chunks follow the first one, so something is left behind it
      have hne : tail.drop (size - 1) ≠ [] := by
        intro hnil
        rw [hnil, chunks] at hlater
        exact hrest (List.append_eq_nil_iff.mp hlater.symm).2
      have hlength : size - 1 < tail.length := by
        rw [ne_eq, List.drop_eq_nil_iff] at hne
        omega
      intro chunk hmem
      rcases List.mem_cons.mp hmem with rfl | hmem
      · rw [List.length_cons, List.length_take]
        omega
      · exact ih front hlater chunk hmem

namespace Flow

/-- What is known of the cells of an image: all of them but the last one are full, and those that
decode are full and hold the word that was decoded. -/
structure Cells (set : InstructionSet) (cells : List Cell) : Prop where
  full : ∀ front rest, cells = front ++ rest → rest ≠ [] →
    ∀ cell ∈ front, cell.bytes.length = cellSize set
  decoded : ∀ cell ∈ cells, ∀ decoded, cell.decoded = some decoded →
    cell.bytes.length = cellSize set ∧
      Decoder.decode set (Word.decode set.width cell.bytes) = some decoded

variable {set : InstructionSet}

theorem Cells.of_append (front : List Cell) {rest : List Cell} (h : Cells set (front ++ rest)) :
    Cells set rest where
  full := by
    intro more last hsplit hlast cell hmem
    refine h.full (front ++ more) last ?_ hlast cell (List.mem_append_right _ hmem)
    rw [hsplit, List.append_assoc]
  decoded := fun cell hmem => h.decoded cell (List.mem_append_right _ hmem)

/-- A run of cells that more cells follow takes whole cells. -/
theorem Cells.length_run {run rest : List Cell} (h : Cells set (run ++ rest)) (hrest : rest ≠ []) :
    (run.flatMap Cell.bytes).length = run.length * cellSize set :=
  length_flatMap_of_forall _ _ _ (h.full run rest rfl hrest)

theorem map_bytes_cells (set : InstructionSet) (code : List UInt8) :
    (cells set code).map Cell.bytes = chunks (cellSize set) code := by
  rw [cells, List.map_map]
  conv_rhs => rw [← List.map_id (chunks (cellSize set) code)]
  refine List.map_congr_left fun chunk _ => ?_
  change (if chunk.length = cellSize set then _ else _ : Cell).bytes = chunk
  split
  · rfl
  · rfl

theorem bytes_cells (set : InstructionSet) (code : List UInt8) :
    (cells set code).flatMap Cell.bytes = code := by
  rw [List.flatMap_def, map_bytes_cells, flatten_chunks]

theorem cellSize_pos (set : InstructionSet) : 0 < cellSize set := by
  have hpos := set.valid.width_pos
  have hmod := set.valid.width_mod
  rw [cellSize]
  omega

theorem cells_spec (set : InstructionSet) (code : List UInt8) :
    Cells set (cells set code) where
  full := by
    intro front rest hsplit hrest cell hmem
    have hchunks := map_bytes_cells set code
    rw [hsplit, List.map_append] at hchunks
    exact length_of_mem_chunks _ (cellSize_pos set) code _ _ hchunks.symm
      (fun hnil => hrest (List.map_eq_nil_iff.mp hnil)) _ (List.mem_map_of_mem hmem)
  decoded := by
    intro cell hmem decoded hdecoded
    obtain ⟨chunk, -, rfl⟩ := List.mem_map.mp hmem
    split at hdecoded
    · rename_i hlength
      rw [if_pos hlength]
      exact ⟨hlength, hdecoded⟩
    · cases hdecoded

end Flow

namespace Listing

variable {set : InstructionSet}

/-- The segments cover the cells from `index` on, code one by one and data in runs. -/
inductive Covers : (index : Nat) → List Cell → List Segment → Prop
  | done (index : Nat) : Covers index [] []
  | code {index : Nat} {cell : Cell} {cells : List Cell} {segments : List Segment}
    (decoded : Decoded) (hdecoded : cell.decoded = some decoded)
    (hrest : Covers (index + 1) cells segments) :
    Covers index (cell :: cells) (.code index decoded :: segments)
  | data {index : Nat} {cells : List Cell} {segments : List Segment} (run : List Cell)
    (hrun : run ≠ []) (hrest : Covers (index + run.length) cells segments) :
    Covers index (run ++ cells) (.data (run.flatMap Cell.bytes) :: segments)

theorem Covers.eq_nil {index : Nat} {segments : List Segment} (h : Covers index [] segments) :
    segments = [] := by
  generalize hnil : [] = cells at h
  cases h with
  | done => rfl
  | code => cases hnil
  | data run hrun => exact absurd (List.append_eq_nil_iff.mp hnil.symm).1 hrun

/-- A cell becomes a segment of code, or it joins the data behind it. -/
theorem segments_cons (isCode : Nat → Bool) (index : Nat) (cell : Cell) (cells : List Cell) :
    (∃ decoded, isCode index = true ∧ cell.decoded = some decoded ∧
      segments isCode index (cell :: cells) =
        .code index decoded :: segments isCode (index + 1) cells) ∨
    ((isCode index = true → cell.decoded = none) ∧
      ((∃ more later, segments isCode (index + 1) cells = .data more :: later ∧
        segments isCode index (cell :: cells) = .data (cell.bytes ++ more) :: later) ∨
      segments isCode index (cell :: cells) =
        .data cell.bytes :: segments isCode (index + 1) cells)) := by
  obtain ⟨bytes, decoded⟩ := cell
  have hdef := segments.eq_def isCode index (⟨bytes, decoded⟩ :: cells)
  dsimp only at hdef
  split at hdef
  · rename_i hcode
    exact .inl ⟨_, hcode, rfl, hdef⟩
  · rename_i more later hlater hnot
    exact .inr ⟨fun hcode => Option.eq_none_iff_forall_ne_some.mpr (hnot · hcode),
      .inl ⟨more, later, hlater, hdef⟩⟩
  · rename_i hnot _
    exact .inr ⟨fun hcode => Option.eq_none_iff_forall_ne_some.mpr (hnot · hcode), .inr hdef⟩

theorem covers_segments (isCode : Nat → Bool) (index : Nat) (cells : List Cell) :
    Covers index cells (segments isCode index cells) := by
  induction cells generalizing index with
  | nil => exact .done index
  | cons cell cells ih =>
    have hlater := ih (index + 1)
    rcases segments_cons isCode index cell cells with ⟨decoded, -, hdecoded, hsegments⟩ |
      ⟨-, ⟨more, later, hmore, hsegments⟩ | hsegments⟩
    · rw [hsegments]
      exact .code decoded hdecoded hlater
    · -- the run that starts behind the cell grows by it
      rw [hmore] at hlater
      rw [hsegments]
      cases hlater with
      | @data _ cells _ run _ hrest =>
        refine .data (cell :: run) (List.cons_ne_nil cell run) ?_
        rwa [List.length_cons, Nat.add_comm run.length, ← Nat.add_assoc]
    · rw [hsegments]
      have hdata := Covers.data [cell] (List.cons_ne_nil cell []) hlater
      rwa [List.flatMap_singleton] at hdata

/-- A cell of code that decodes is a segment of its own. -/
theorem code_mem_segments (isCode : Nat → Bool) (index : Nat) (cells : List Cell) (offset : Nat)
    (cell : Cell) (decoded : Decoded) (hcode : isCode (index + offset) = true)
    (hcell : cells[offset]? = some cell) (hdecoded : cell.decoded = some decoded) :
    .code (index + offset) decoded ∈ segments isCode index cells := by
  induction cells generalizing index offset with
  | nil => cases hcell
  | cons first cells ih =>
    cases offset with
    | zero =>
      cases hcell
      rw [Nat.add_zero] at hcode ⊢
      rcases segments_cons isCode index cell cells with ⟨found, -, hfound, hsegments⟩ | ⟨hnone, -⟩
      · rw [hsegments, Option.some.inj (hfound.symm.trans hdecoded)]
        exact List.mem_cons_self
      · rw [hnone hcode] at hdecoded
        cases hdecoded
    | succ offset =>
      rw [Nat.add_comm offset, ← Nat.add_assoc] at hcode ⊢
      have hlater := ih (index + 1) offset hcode hcell
      rcases segments_cons isCode index first cells with ⟨found, -, -, hsegments⟩ |
        ⟨-, ⟨more, later, hmore, hsegments⟩ | hsegments⟩
      · rw [hsegments]
        exact List.mem_cons_of_mem _ hlater
      · -- the data in front of the later segments is no code, so the cell is behind it
        rw [hmore] at hlater
        rw [hsegments]
        rcases List.mem_cons.mp hlater with hdata | hlater
        · cases hdata
        · exact List.mem_cons_of_mem _ hlater
      · rw [hsegments]
        exact List.mem_cons_of_mem _ hlater

end Listing

end WordAsm
