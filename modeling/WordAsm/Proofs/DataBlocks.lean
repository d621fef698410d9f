import Mathlib.Logic.Function.Iterate
import WordAsm.Proofs.LayoutSpecification
import WordAsm.Proofs.RoundTrip

/-! Data blocks read back. The words of a block are listed in passes, each of which takes at least
one of them, so there are no more passes than words. The text of the lines scans and parses under
every lexicon that leaves its mnemonics and labels alone, and whatever the instruction set, what it
parses to are the labels of the strings and data directives for the bytes of the block. -/

namespace WordAsm.Listing

/-- How far the words of a block have been listed: the lines so far, the number of the next string
and the words left. -/
structure Progress where
  lines : List Line
  index : Nat
  rest : List UInt16

namespace Progress

/-- A pass over the words up to the end of the next run of characters, which becomes a string if it
is long enough. -/
def pass (progress : Progress) : Progress :=
  let plain := progress.rest.takeWhile (!isCharWord ·)
  let text := (progress.rest.dropWhile (!isCharWord ·)).takeWhile isCharWord
  let rest := (progress.rest.dropWhile (!isCharWord ·)).dropWhile isCharWord
  if text.length < 4 then ⟨progress.lines ++ hexLines (plain ++ text), progress.index, rest⟩
  else
    ⟨progress.lines ++ (hexLines plain ++ [.string progress.index text (dropZero rest).1]),
      progress.index + 1, (dropZero rest).2⟩

/-- What there will be when all words have been listed. -/
def outcome (progress : Progress) : Progress :=
  ⟨progress.lines ++ (wordLines progress.index progress.rest).1,
    (wordLines progress.index progress.rest).2, []⟩

theorem pass_of_nil (progress : Progress) (h : progress.rest = []) : progress.pass = progress := by
  obtain ⟨lines, index, rest⟩ := progress
  subst h
  have hnone : hexLines [] = [] := by
    rw [hexLines, chunks]
    rfl
  change Progress.mk (lines ++ hexLines []) index [] = _
  rw [hnone, List.append_nil]

/-- A pass takes at least one word. -/
theorem length_rest_pass_lt (progress : Progress) (h : progress.rest ≠ []) :
    progress.pass.rest.length < progress.rest.length := by
  obtain ⟨lines, index, rest⟩ := progress
  cases rest with
  | nil => exact absurd rfl h
  | cons word words =>
    rw [pass]
    dsimp only
    split
    · exact length_afterRun_lt word words
    · exact Nat.lt_of_le_of_lt (length_dropZero_le _) (length_afterRun_lt word words)

/-- A pass lists what it takes. -/
theorem outcome_pass (progress : Progress) : progress.pass.outcome = progress.outcome := by
  obtain ⟨lines, index, rest⟩ := progress
  cases rest with
  | nil => rw [pass_of_nil _ rfl]
  | cons word words =>
    rw [outcome, outcome, wordLines, pass]
    dsimp only
    split
    · dsimp only
      rw [List.append_assoc]
    · dsimp only
      rw [List.append_assoc, List.append_assoc, List.singleton_append]

/-- As many passes as there are words list all of them, and more change nothing. -/
theorem iterate_pass (passes : Nat) (progress : Progress) (h : progress.rest.length ≤ passes) :
    pass^[passes] progress = progress.outcome := by
  induction passes generalizing progress with
  | zero =>
    have hnil : progress.rest = [] := List.length_eq_zero_iff.mp (Nat.le_zero.mp h)
    obtain ⟨lines, index, rest⟩ := progress
    subst hnil
    rw [outcome, wordLines]
    exact congrArg (fun lines => Progress.mk lines index []) (List.append_nil lines).symm
  | succ passes ih =>
    rw [Function.iterate_succ_apply]
    by_cases hnil : progress.rest = []
    · rw [pass_of_nil progress hnil]
      apply ih
      rw [hnil]
      exact Nat.zero_le passes
    · have hless := length_rest_pass_lt progress hnil
      rw [ih progress.pass (by omega), outcome_pass]

end Progress

variable {lexicon : Lexicon}

/-- Lines that all have a statement besides their label define these labels, and hold these
statements, in order. -/
theorem statements_of_lines (lines : List Line)
    (hbody : ∀ line ∈ lines, (line.body? lexicon).isSome = true) (statements : List Statement)
    (h : statements.map Statement.bare = lines.flatMap (Line.statements lexicon)) :
    Layout.labelNames statements = lines.filterMap Line.name? ∧
      List.Forall₂ (fun directive line => line.body? lexicon = some directive.bare)
        (statements.filter fun statement => statement.kind ≠ .label) lines := by
  induction lines generalizing statements with
  | nil =>
    rw [List.map_eq_nil_iff.mp h]
    exact ⟨rfl, .nil⟩
  | cons line lines ih =>
    obtain ⟨first, later, rfl, hfirst, hlater⟩ := List.map_eq_append_iff.mp h
    obtain ⟨hnames, hdirectives⟩ :=
      ih (fun other hother => hbody other (List.mem_cons_of_mem _ hother)) later hlater
    obtain ⟨labels, bodies, rfl, hlabels, hbodies⟩ := List.map_eq_append_iff.mp hfirst
    obtain ⟨body, hline⟩ := Option.isSome_iff_exists.mp (hbody line List.mem_cons_self)
    rw [hline] at hbodies
    obtain ⟨directive, rfl, rfl⟩ := List.map_eq_singleton_iff.mp hbodies
    have hkind : directive.kind ≠ .label := by
      obtain ⟨mnemonic, args, heq⟩ := line.instruction_of_body _ hline
      have hinstruction : directive.kind = .instruction := congrArg Statement.kind heq
      rw [hinstruction]
      decide
    have hdefined : Layout.labelNames ([directive] ++ later) = lines.filterMap Line.name? := by
      rw [List.singleton_append, Layout.labelNames_cons_of_ne _ _ hkind, hnames]
    have hkept : ([directive] ++ later).filter (fun statement => statement.kind ≠ .label) =
        directive :: later.filter fun statement => statement.kind ≠ .label :=
      List.filter_cons_of_pos (by simpa using hkind)
    -- in front of the directive there is at most the label of the line
    cases hname : line.name? with
    | none =>
      rw [hname] at hlabels
      rw [List.map_eq_nil_iff.mp hlabels, List.nil_append, hdefined, hkept,
        List.filterMap_cons_none hname]
      exact ⟨rfl, .cons hline hdirectives⟩
    | some name =>
      rw [hname] at hlabels
      obtain ⟨label, rfl, hlabel⟩ := List.map_eq_singleton_iff.mp hlabels
      have hlabelKind : label.kind = .label := congrArg Statement.kind hlabel
      have htext : label.name.text = name :=
        congrArg (fun statement : Statement => statement.name.text) hlabel
      rw [List.append_assoc, List.singleton_append, Layout.labelNames_cons_of_label _ _ hlabelKind,
        htext, hdefined, List.filter_cons_of_neg (by simpa using hlabelKind), hkept,
        List.filterMap_cons_some hname]
      exact ⟨rfl, .cons hline hdirectives⟩

/-- A data directive read back gives the data of its line. -/
theorem statementBytes_of_holds (set : InstructionSet) (line : Line) (mnemonic : String)
    (slotSize : Nat) (hline : line.Holds lexicon mnemonic slotSize)
    (hslot : Directive.slotSize? (Text.lower mnemonic) = some slotSize) (directive : Statement)
    (h : line.body? lexicon = some directive.bare) :
    directive.mnemonic = Text.lower mnemonic ∧
      Image.statementBytes set directive = .ok line.data := by
  obtain ⟨args, values, hbody, hargs, hdata⟩ := hline
  have hbare := Option.some.inj (h.symm.trans hbody)
  obtain ⟨hkind, hmnemonic, rfl⟩ := instruction_of_bare directive mnemonic args hbare
  refine ⟨hmnemonic, ?_⟩
  rw [Image.statementBytes_of_data set directive slotSize (by rw [hkind]; decide)
    (by rw [hmnemonic]; exact hslot)]
  refine (Image.dataBytes_eq_ok_iff ..).mpr ⟨values, ?_, hdata.symm⟩
  rw [List.forall₂_map_left_iff] at hargs
  exact hargs.imp fun arg value hfills =>
    (Image.slotValues_eq_ok_iff directive.mnemonic arg value).mpr hfills

/-- The lexicon has neither the mnemonics of data lines nor the labels of strings. -/
structure LeavesData (lexicon : Lexicon) : Prop where
  dw : lexicon "dw" = none
  db : lexicon "db" = none
  string : ∀ number, lexicon (stringName number) = none

theorem readable_dataLines (hlexicon : LeavesData lexicon) (index : Nat) (bytes : List UInt8) :
    ∀ line ∈ (dataLines index bytes).1, line.Readable lexicon := by
  intro line hline
  have hdw : Token.isName "dw" = true := by decide
  have hdb : Token.isName "db" = true := by decide
  rcases mem_dataLines index bytes line hline with hdata | ⟨value, rfl⟩
  · refine ⟨?_, ?_, ?_⟩
    · intro name hname
      cases hdata with
      | words => cases hname
      | string number => exact Option.some.inj hname ▸ hlexicon.string number
    · intro body hbody
      cases hdata with
      | words | string =>
        cases hbody
        exact ⟨hlexicon.dw, hdw⟩
    · rintro mnemonic operands rfl
      cases hdata
  · refine ⟨?_, ?_, ?_⟩
    · intro name hname
      cases hname
    · intro body hbody
      cases hbody
      exact ⟨hlexicon.db, hdb⟩
    · intro mnemonic operands hcode
      cases hcode

/-- The directive lists whole words of sixteen bits. -/
def CoversWords (set : InstructionSet) (directive : Statement) : Prop :=
  directive.mnemonic = "dw" ∧
    ∃ block, Image.statementBytes set directive = .ok block ∧ block.length % 2 = 0

/-- The directive lists one byte. -/
def CoversByte (set : InstructionSet) (directive : Statement) : Prop :=
  directive.mnemonic = "db" ∧
    ∃ block, Image.statementBytes set directive = .ok block ∧ block.length = 1

theorem directive_of_data (set : InstructionSet) (line : Line) (hline : line.IsData)
    (directive : Statement) (h : line.body? lexicon = some directive.bare) :
    CoversWords set directive ∧ Image.statementBytes set directive = .ok line.data := by
  have hlower : Text.lower "dw" = "dw" := by decide +kernel
  obtain ⟨hmnemonic, hbytes⟩ :=
    statementBytes_of_holds set line "dw" 2 (holds_data line hline) slotSize?_dw directive h
  obtain ⟨count, hcount⟩ := hline.length_data
  refine ⟨⟨hmnemonic.trans hlower, line.data, hbytes, ?_⟩, hbytes⟩
  rw [hcount]
  exact Nat.mul_mod_left count 2

theorem directive_of_byte (set : InstructionSet) (value : UInt8) (directive : Statement)
    (h : (Line.byte value).body? lexicon = some directive.bare) :
    CoversByte set directive ∧
      Image.statementBytes set directive = .ok (Line.byte value).data := by
  have hlower : Text.lower "db" = "db" := by decide +kernel
  obtain ⟨hmnemonic, hbytes⟩ :=
    statementBytes_of_holds set _ "db" 1 (holds_byte value) slotSize?_db directive h
  exact ⟨⟨hmnemonic.trans hlower, [value], hbytes, rfl⟩, hbytes⟩

/-- What the statements of a data block have to be: labels for its strings from `index` up to
`next`, and directives that list its bytes, of whole words but for a last byte. -/
structure Restores (set : InstructionSet) (index next : Nat) (bytes : List UInt8)
    (statements : List Statement) : Prop where
  le : index ≤ next
  labels : Layout.labelNames statements = (List.range' index (next - index)).map stringName
  image : Image.generate set (statements.filter fun statement => statement.kind ≠ .label) =
    .ok bytes
  directives : ∃ words odd,
    (statements.filter fun statement => statement.kind ≠ .label) = words ++ odd ∧
    (∀ directive ∈ words, CoversWords set directive) ∧
    (∀ directive ∈ odd, CoversByte set directive) ∧ odd.length ≤ 1

/-- Directives that each stand for a line of one kind are all of that kind and give the data of the
lines. -/
theorem directives_of_lines (set : InstructionSet) (P : Statement → Prop) (Q : Line → Prop)
    (hread : ∀ line, Q line → ∀ directive : Statement,
      line.body? lexicon = some directive.bare →
        P directive ∧ Image.statementBytes set directive = .ok line.data)
    (directives : List Statement) (lines : List Line) (hlines : ∀ line ∈ lines, Q line)
    (h : List.Forall₂ (fun directive line => line.body? lexicon = some directive.bare)
      directives lines) :
    (∀ directive ∈ directives, P directive) ∧
      List.Forall₂ (fun directive line => Image.statementBytes set directive = .ok line.data)
        directives lines := by
  induction h with
  | nil => exact ⟨List.forall_mem_nil P, .nil⟩
  | @cons directive line _ _ hfirst _ ih =>
    obtain ⟨hline, hlines⟩ := List.forall_mem_cons.mp hlines
    obtain ⟨hkind, hbytes⟩ := hread line hline directive hfirst
    obtain ⟨hkinds, hlater⟩ := ih hlines
    exact ⟨List.forall_mem_cons.mpr ⟨hkind, hkinds⟩, .cons hbytes hlater⟩

theorem restores_dataLines (set : InstructionSet) (index : Nat) (bytes : List UInt8)
    (statements : List Statement)
    (h : statements.map Statement.bare =
      (dataLines index bytes).1.flatMap (Line.statements lexicon)) :
    Restores set index (dataLines index bytes).2 bytes statements := by
  have hbody : ∀ line ∈ (dataLines index bytes).1, (line.body? lexicon).isSome = true := by
    intro line hline
    rcases mem_dataLines index bytes line hline with hdata | ⟨value, rfl⟩
    · cases hdata with
      | words | string => rfl
    · rfl
  obtain ⟨hnames, hdirectives⟩ := statements_of_lines _ hbody statements h
  obtain ⟨hle, hstrings⟩ := names_dataLines index bytes
  obtain ⟨_, lines, odd, hlines, heq, -, hodd⟩ := dataLines_spec index bytes
  generalize hkept : (statements.filter fun statement => statement.kind ≠ .label) = kept
    at hdirectives
  rw [heq] at hdirectives
  -- the directives of the lines of words, and of the byte that may be left over
  obtain ⟨hwords, hwordBytes⟩ := directives_of_lines set _ _ (directive_of_data set) _ lines
    hlines.data (List.forall₂_take_append kept lines _ hdirectives)
  have hlast := List.forall₂_drop_append kept lines _ hdirectives
  have hbyteLines : ∀ line ∈ odd.map Line.byte, ∃ value, line = .byte value := by
    intro line hline
    obtain ⟨value, -, rfl⟩ := List.mem_map.mp hline
    exact ⟨value, rfl⟩
  obtain ⟨hbytes, hoddBytes⟩ := directives_of_lines set (CoversByte set) _
    (by rintro _ ⟨value, rfl⟩; exact directive_of_byte set value) _ _ hbyteLines hlast
  refine ⟨hle, hnames.trans hstrings, ?_, kept.take lines.length, kept.drop lines.length, ?_,
    hwords, hbytes, ?_⟩
  · have hblocks := List.rel_append hwordBytes hoddBytes
    dsimp only at hblocks
    rw [List.take_append_drop, ← heq] at hblocks
    rw [hkept]
    refine (Image.generate_eq_ok_iff set kept bytes).mpr
      ⟨(dataLines index bytes).1.map Line.data, List.forall₂_map_right_iff.mpr hblocks, ?_⟩
    rw [← List.flatMap_def, data_dataLines]
  · rw [hkept, List.take_append_drop]
  · rw [hlast.length_eq, List.length_map]
    exact hodd

theorem length_splitWords (bytes : List UInt8) :
    (splitWords bytes).1.length = bytes.length / 2 := by
  fun_induction splitWords bytes with
  | case1 high low rest words odd h ih =>
    rw [h] at ih
    simp only [List.length_cons] at ih ⊢
    omega
  | case2 byte => exact (Nat.div_eq_of_lt Nat.one_lt_two).symm
  | case3 => rfl

end WordAsm.Listing

namespace WordAsm

open WordAsm.Listing

/-- Whatever its bytes are, a data block is listed in no more passes than it has words, and its text
reads back under every lexicon that has neither the mnemonics of data nor the labels of strings:
what it parses to are labels with the numbers of its strings, in order, and directives that give
exactly its bytes with every instruction set, of whole words but for a last byte. -/
theorem data_blocks_read_back (lexicon : Lexicon) (hlexicon : LeavesData lexicon)
    (set : InstructionSet) (file : String) (index : Nat) (bytes : List UInt8) :
    (∀ passes, bytes.length / 2 ≤ passes →
      Progress.pass^[passes] ⟨[], index, (splitWords bytes).1⟩ =
        ⟨(wordLines index (splitWords bytes).1).1, (dataLines index bytes).2, []⟩) ∧
    ∃ tokens statements,
      Token.scan lexicon file (String.join ((dataLines index bytes).1.map Line.render)).toList =
        .ok tokens ∧
      Statement.parse tokens = .ok statements ∧
      Restores set index (dataLines index bytes).2 bytes statements := by
  constructor
  · intro passes hpasses
    rw [← length_splitWords] at hpasses
    exact Progress.iterate_pass passes ⟨[], index, (splitWords bytes).1⟩ hpasses
  · obtain ⟨tokens, statements, hscan, hparse, hbare⟩ :=
      parse_listing _ (readable_dataLines hlexicon index bytes) file
    exact ⟨tokens, statements, hscan, hparse, restores_dataLines set index bytes statements hbare⟩

/-- A word that is no character, a string with a quote and a backslash and a zero behind it, and a
byte that is left over. -/
def quotedBlock : List UInt8 :=
  [0x12, 0x34, 0, 0x61, 0, 0x22, 0, 0x5c, 0, 0x20, 0, 0, 0x80]

/-- With the built-in set the block reads back as a string with the number that is next. -/
theorem quotedBlock_reads_back :
    LeavesData InstructionSet.zirc16.classOf? ∧ ∃ tokens statements,
      Token.scan InstructionSet.zirc16.classOf? ""
        (String.join ((dataLines 7 quotedBlock).1.map Line.render)).toList = .ok tokens ∧
      Statement.parse tokens = .ok statements ∧
      Restores InstructionSet.zirc16 7 8 quotedBlock statements := by
  obtain ⟨asm, -, hset, hreads⟩ := Assembler.exists_zirc16 false
  have hlexicon : LeavesData InstructionSet.zirc16.classOf? := by
    rw [← hset]
    refine ⟨?_, ?_, hreads.string⟩
    · exact (hreads.mnemonic "dw" (List.mem_append_left _ (by decide))).2.1
    · exact (hreads.mnemonic "db" (List.mem_append_left _ (by decide))).2.1
  have hnext : (dataLines 7 quotedBlock).2 = 8 := by decide +kernel
  obtain ⟨-, hread⟩ :=
    data_blocks_read_back _ hlexicon InstructionSet.zirc16 "" 7 quotedBlock
  rw [hnext] at hread
  exact ⟨hlexicon, hread⟩

end WordAsm
