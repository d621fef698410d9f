import WordAsm.Assembler
import WordAsm.Proofs.LayoutAgreement
import WordAsm.Proofs.LayoutSpecification
import WordAsm.Proofs.RecursiveExpansion

/-! A statement in its surroundings. What stands in front of a statement and behind it is expanded,
laid out and encoded without a look at it, except for the room that it takes: programs that differ
in one statement, where that takes as many words, have the same labels and differ in the bytes of
that statement only. -/

namespace WordAsm

theorem mapM_append_eq_ok_iff {ε α β : Type} (f : α → Except ε β) (front rest : List α)
    (results : List β) :
    (front ++ rest).mapM f = .ok results ↔
      ∃ first second, front.mapM f = .ok first ∧ rest.mapM f = .ok second ∧
        results = first ++ second := by
  rw [List.mapM_append, bind_eq_ok_iff]
  refine exists_congr fun first => ?_
  simp only [bind_eq_ok_iff]
  constructor
  · rintro ⟨hfirst, second, hsecond, h⟩
    exact ⟨second, hfirst, hsecond, (Except.ok.inj h).symm⟩
  · rintro ⟨second, hfirst, hsecond, rfl⟩
    exact ⟨hfirst, second, hsecond, rfl⟩

namespace PseudoTable

variable {table : PseudoTable}

/-- A statement expands between the expansions of what is around it. -/
theorem expand_around_iff (statement : Statement) (piece : List Statement)
    (h : table.expandAt 0 statement = some piece) (front back expanded : List Statement) :
    table.expand (front ++ statement :: back) = .ok expanded ↔
      ∃ first second, table.expand front = .ok first ∧ table.expand back = .ok second ∧
        expanded = first ++ (piece ++ second) := by
  simp only [expand_eq_ok_iff, Concatenates.append_iff, Concatenates.cons_iff, h,
    Option.some.injEq]
  constructor
  · rintro ⟨first, _, hfirst, ⟨_, second, rfl, hsecond, rfl⟩, rfl⟩
    exact ⟨first, second, hfirst, hsecond, rfl⟩
  · rintro ⟨first, second, hfirst, hsecond, rfl⟩
    exact ⟨first, _, hfirst, ⟨piece, second, rfl, hsecond, rfl⟩, rfl⟩

end PseudoTable

namespace Layout

variable {width : Nat} {strict : Bool}

/-- Statements placed one behind the other. -/
def row (width : Nat) : (address : UInt64) → List Statement → List Statement
  | _, [] => []
  | address, statement :: rest =>
    placedAt width address statement :: row width (address + sizeOf width statement / 2) rest

/-- The words that statements take one behind the other. -/
def room (width : Nat) (statements : List Statement) : UInt64 :=
  (statements.map fun statement => sizeOf width statement / 2).sum

theorem Places.append {address middle last : UInt64} {labels known sites : NameMap LabelSite}
    {front rest first second : List Statement}
    (hfront : Places width strict address labels front first middle known)
    (hrest : Places width strict middle known rest second last sites) :
    Places width strict address labels (front ++ rest) (first ++ second) last sites := by
  induction hfront with
  | done => exact hrest
  | label hkind hnew _ ih => exact .label hkind hnew (ih hrest)
  | origin horigin hvalue _ ih => exact .origin horigin hvalue (ih hrest)
  | retained hretained _ ih => exact .retained hretained (ih hrest)

/-- Statements that are all retained are placed in a row, and what follows has the labels it would
have without them. -/
theorem places_row_iff {address last : UInt64} {labels sites : NameMap LabelSite}
    (piece : List Statement) (hpiece : ∀ statement ∈ piece, statement.retained = true)
    {rest placed : List Statement} :
    Places width strict address labels (piece ++ rest) placed last sites ↔
      ∃ later, placed = row width address piece ++ later ∧
        Places width strict (address + room width piece) labels rest later last sites := by
  induction piece generalizing address placed with
  | nil => simp [row, room]
  | cons statement piece ih =>
    rw [List.forall_mem_cons] at hpiece
    rw [List.cons_append, places_retained_iff hpiece.1]
    simp only [ih hpiece.2, room, List.map_cons, List.sum_cons, row, List.cons_append,
      UInt64.add_assoc]
    constructor
    · rintro ⟨_, rfl, later, rfl, hlater⟩
      exact ⟨later, rfl, hlater⟩
    · rintro ⟨later, rfl, hlater⟩
      exact ⟨_, rfl, later, rfl, hlater⟩

end Layout

namespace Image

variable {set : InstructionSet}

/-- The bytes of statements stand in the order of the statements. -/
theorem generate_append_iff (front rest : List Statement) (code : List UInt8) :
    generate set (front ++ rest) = .ok code ↔
      ∃ before after, generate set front = .ok before ∧ generate set rest = .ok after ∧
        code = before ++ after := by
  simp only [generate_eq_ok_iff]
  exact Concatenates.append_iff front rest code

theorem generate_singleton_iff (statement : Statement) (bytes : List UInt8) :
    generate set [statement] = .ok bytes ↔ statementBytes set statement = .ok bytes := by
  rw [generate_eq_ok_iff]
  constructor
  · rintro ⟨_, hblocks, rfl⟩
    obtain ⟨block, _, hblock, hnil, rfl⟩ := List.forall₂_cons_left_iff.mp hblocks
    rw [List.forall₂_nil_left_iff.mp hnil, List.flatten_singleton]
    exact hblock
  · intro h
    exact ⟨[bytes], .cons h .nil, List.flatten_singleton.symm⟩

end Image

/-- A program with a gap at `place`: its labels, and on both sides of the gap what is expanded, what
is laid out and the bytes. -/
structure Surroundings where
  labels : NameMap UInt64
  place : UInt64
  first : List Statement
  second : List Statement
  earlier : List Statement
  later : List Statement
  before : List UInt8
  after : List UInt8

/-- The program with statements and their bytes in the gap. -/
def Surroundings.fill (around : Surroundings) (kept : List Statement) (bytes : List UInt8) :
    Program where
  code := around.before ++ (bytes ++ around.after)
  layout := ⟨around.earlier ++ (kept ++ around.later), around.labels⟩

namespace Assembler

/-- The program of parsed statements. -/
def build (asm : Assembler) (statements : List Statement) : Except Error Program := do
  let expanded ← asm.pseudos.expand statements
  let layout ← asm.layout expanded
  let code ← Image.generate asm.set layout.statements
  return ⟨code, layout⟩

theorem build_eq_ok_iff (asm : Assembler) (statements : List Statement) (program : Program) :
    asm.build statements = .ok program ↔
      ∃ expanded, asm.pseudos.expand statements = .ok expanded ∧
        asm.layout expanded = .ok program.layout ∧
        Image.generate asm.set program.layout.statements = .ok program.code := by
  simp only [build, bind_eq_ok_iff]
  refine exists_congr fun expanded => and_congr_right fun _ => ?_
  constructor
  · rintro ⟨layout, hlayout, code, hcode, h⟩
    cases h
    exact ⟨hlayout, hcode⟩
  · rintro ⟨hlayout, hcode⟩
    exact ⟨_, hlayout, _, hcode, rfl⟩

/-- `front` and `back` are expanded, laid out and encoded on both sides of a gap of `room` words. -/
structure Surrounds (asm : Assembler) (front back : List Statement) (room : UInt64)
    (around : Surroundings) : Prop where
  first : asm.pseudos.expand front = .ok around.first
  second : asm.pseudos.expand back = .ok around.second
  layout : ∃ known sites placed placed' last,
    Layout.Places asm.set.width asm.strict 0 [] around.first placed around.place known ∧
    Layout.Places asm.set.width asm.strict (around.place + room) known around.second placed' last
      sites ∧
    around.labels = Layout.addresses sites ∧
    placed.mapM (Layout.resolveArgs around.labels) = .ok around.earlier ∧
    placed'.mapM (Layout.resolveArgs around.labels) = .ok around.later
  before : Image.generate asm.set around.earlier = .ok around.before
  after : Image.generate asm.set around.later = .ok around.after

/-- A statement of which the expansion is retained fills a gap of the room that it takes, and the
gap does not depend on it any further. -/
theorem build_around_iff (asm : Assembler) (statement : Statement) (piece : List Statement)
    (hexpand : asm.pseudos.expandAt 0 statement = some piece)
    (hpiece : ∀ statement ∈ piece, statement.retained = true) (front back : List Statement)
    (program : Program) :
    asm.build (front ++ statement :: back) = .ok program ↔
      ∃ around kept bytes,
        asm.Surrounds front back (Layout.room asm.set.width piece) around ∧
        (Layout.row asm.set.width around.place piece).mapM (Layout.resolveArgs around.labels) =
          .ok kept ∧
        Image.generate asm.set kept = .ok bytes ∧ program = around.fill kept bytes := by
  rw [build_eq_ok_iff]
  simp only [PseudoTable.expand_around_iff statement piece hexpand, layout,
    Layout.resolve_eq_ok_iff]
  constructor
  · rintro ⟨_, ⟨first, second, hfirst, hsecond, rfl⟩,
      ⟨_, last, sites, hplaces, hlabels, hkept⟩, hcode⟩
    -- the layout and the image are taken apart where the expansion was put together
    obtain ⟨placed, known, place, _, hplaced, hrest, rfl⟩ := hplaces.of_append first
    obtain ⟨placed', rfl, hplaced'⟩ := (Layout.places_row_iff piece hpiece).mp hrest
    rw [← mapM_eq_ok_iff, mapM_append_eq_ok_iff] at hkept
    obtain ⟨earlier, _, hearlier, hbehind, hstatements⟩ := hkept
    obtain ⟨kept, later, hkept, hlater, rfl⟩ := (mapM_append_eq_ok_iff ..).mp hbehind
    rw [hstatements, Image.generate_append_iff] at hcode
    obtain ⟨before, _, hbefore, hbehind, hcode⟩ := hcode
    obtain ⟨bytes, after, hbytes, hafter, rfl⟩ := (Image.generate_append_iff ..).mp hbehind
    obtain ⟨code, statements, labels⟩ := program
    refine ⟨⟨labels, place, first, second, earlier, later, before, after⟩, kept, bytes,
      ⟨hfirst, hsecond, ?_, hbefore, hafter⟩, hkept, hbytes, ?_⟩
    · exact ⟨known, sites, placed, placed', last, hplaced, hplaced', hlabels, hearlier, hlater⟩
    · rw [Surroundings.fill, ← hstatements, ← hcode]
  · rintro ⟨around, kept, bytes, ⟨hfirst, hsecond, hlayout, hbefore, hafter⟩, hkept, hbytes, rfl⟩
    obtain ⟨known, sites, placed, placed', last, hplaced, hplaced', hlabels, hearlier, hlater⟩ :=
      hlayout
    have hrest := (Layout.places_row_iff piece hpiece).mpr ⟨placed', rfl, hplaced'⟩
    refine ⟨_, ⟨_, _, hfirst, hsecond, rfl⟩,
      ⟨_, last, sites, hplaced.append hrest, hlabels, ?_⟩, ?_⟩
    · rw [← mapM_eq_ok_iff, mapM_append_eq_ok_iff]
      refine ⟨_, _, hearlier, (mapM_append_eq_ok_iff ..).mpr ?_, rfl⟩
      exact ⟨_, _, hkept, hlater, rfl⟩
    · apply (Image.generate_append_iff ..).mpr
      refine ⟨_, _, hbefore, (Image.generate_append_iff ..).mpr ?_, rfl⟩
      exact ⟨_, _, hbytes, hafter, rfl⟩

end Assembler

end WordAsm
