import WordAsm.Assembler
import WordAsm.Proofs.Expansion
import WordAsm.Proofs.ListingLines

/-! Listings assembled again. What an image is listed as assembles back to the image, for every set
whose mnemonics and names do not stand in the way of the listing, and so for the built-in set. -/

namespace WordAsm

open WordAsm.Text WordAsm.Listing

/-- Placed statements whose blocks are known make up an image. -/
theorem generate_of_places (set : InstructionSet) (strict : Bool)
    (statements placed : List Statement) (last : UInt64) (sites : NameMap LabelSite)
    (hplaces : Layout.Places set.width strict 0 [] statements placed last sites)
    (blocks : List (List UInt8))
    (hblocks : List.Forall₂ (fun statement block =>
      Image.emit set (Layout.addresses sites) statement = .ok block)
      (statements.filter Statement.retained) blocks) :
    ∃ layout, Layout.resolve set.width strict statements = .ok layout ∧
      Image.generate set layout.statements = .ok blocks.flatten := by
  have hkept : ∃ kept, List.Forall₂ (fun given kept =>
        Layout.resolveArgs (Layout.addresses sites) given = .ok kept) placed kept ∧
      List.Forall₂ (fun kept block => Image.statementBytes set kept = .ok block) kept blocks := by
    have hplaced := hplaces.placed_retained
    clear hplaces
    generalize statements.filter Statement.retained = given at hplaced hblocks
    induction hplaced generalizing blocks with
    | nil =>
      cases hblocks
      exact ⟨[], .nil, .nil⟩
    | cons hfirst _ ih =>
      obtain ⟨place, rfl⟩ := hfirst
      cases hblocks with
      | cons hblock hblocks =>
        rw [← Image.emit_placedAt set _ set.width place] at hblock
        obtain ⟨first, hresolve, hbytes⟩ := bind_eq_ok_iff.mp hblock
        obtain ⟨kept, hkept, hlater⟩ := ih _ hblocks
        exact ⟨first :: kept, .cons hresolve hkept, .cons hbytes hlater⟩
  obtain ⟨kept, hkept, hbytes⟩ := hkept
  exact ⟨⟨kept, Layout.addresses sites⟩,
    (Layout.resolve_eq_ok_iff statements _).mpr ⟨placed, last, sites, hplaces, rfl, hkept⟩,
    (Image.generate_eq_ok_iff set kept _).mpr ⟨blocks, hbytes, rfl⟩⟩

namespace Assembler

/-- Statements whose mnemonics the pseudo-instructions leave alone stay as they are. -/
theorem expand_listing (asm : Assembler) {lexicon : Lexicon} (lines : List Line)
    (hknown : ∀ line ∈ lines, ∀ body ∈ line.body? lexicon,
      asm.pseudos.knows (lower body.name.text) = false)
    (statements : List Statement)
    (h : statements.map Statement.bare = lines.flatMap (Line.statements lexicon)) :
    asm.pseudos.expand statements = .ok statements := by
  refine asm.pseudos.expandIn_of_done _ statements (List.any_eq_false.mpr ?_)
  intro statement hmem hexpands
  obtain ⟨hkind, hknows⟩ := Bool.and_eq_true_iff.mp hexpands
  have hbare := List.mem_map_of_mem (f := Statement.bare) hmem
  rw [h] at hbare
  obtain ⟨line, hline, hbare⟩ := List.mem_flatMap.mp hbare
  rcases List.mem_append.mp hbare with hbare | hbare
  · obtain ⟨name, -, heq⟩ := List.mem_map.mp hbare
    have hlabel : statement.kind = .label := congrArg Statement.kind heq.symm
    rw [hlabel] at hkind
    cases hkind
  · have hnot := hknown line hline _ (Option.mem_toList.mp hbare)
    exact absurd (hknows.symm.trans hnot) nofun

/-- Readable lines that are well placed assemble to what they give. -/
theorem assemble_lines (asm : Assembler) (lines : List Line)
    (hreadable : ∀ line ∈ lines, line.Readable asm.set.classOf?)
    (hplain : ∀ line ∈ lines, line.IsPlain)
    (hknown : ∀ line ∈ lines, ∀ body ∈ line.body? asm.set.classOf?,
      asm.pseudos.knows (lower body.name.text) = false)
    (hnames : (lines.filterMap Line.name?).Nodup) (hplaced : WellPlaced asm.set.width 0 lines)
    (image : List UInt8)
    (hemits : ∀ labels : NameMap UInt64,
      (∀ value, .label value ∈ lines → labels.get? (labelName value) = some value) →
        Emits asm.set.classOf? asm.set labels lines image) (file : String) :
    ∃ program, asm.assemble file (String.join (lines.map Line.render)).toList = .ok program ∧
      program.code = image := by
  obtain ⟨tokens, statements, hscan, hparse, hbare⟩ := parse_listing lines hreadable file
  obtain ⟨placed, last, sites, hplaces, hlabels⟩ := places_lines asm.strict lines hplain
    hnames 0 hplaced [] (fun _ _ => rfl) statements hbare
  -- the labels that the lines are laid out with are those that their bytes need
  obtain ⟨blocks, hblocks, rfl⟩ := hemits _ hlabels statements hbare
  obtain ⟨layout, hlayout, hcode⟩ := generate_of_places asm.set asm.strict statements placed last
    sites hplaces blocks hblocks
  have hexpand := asm.expand_listing lines hknown statements hbare
  refine ⟨⟨blocks.flatten, layout⟩, ?_, rfl⟩
  refine bind_eq_ok_iff.mpr ⟨tokens, hscan, bind_eq_ok_iff.mpr ⟨statements, ?_, ?_⟩⟩
  · exact bind_eq_ok_iff.mpr ⟨statements, hparse, hexpand⟩
  · exact bind_eq_ok_iff.mpr ⟨layout, hlayout, bind_eq_ok_iff.mpr ⟨_, hcode, rfl⟩⟩

/-- The assembler reads what stands in a listing as it is meant: mnemonics are words that are no
names of the set and no pseudo-instructions, names are words, and labels are no names. -/
structure ReadsListings (asm : Assembler) : Prop where
  listable : asm.set.Listable
  mnemonic : ∀ mnemonic ∈ ["org", "dw", "db"] ++ asm.set.formats.names,
    Token.isName mnemonic = true ∧ asm.set.classOf? mnemonic = none ∧
      asm.pseudos.knows (lower mnemonic) = false
  name : ∀ entry ∈ asm.set.names, Token.isName entry.name = true
  label : ∀ address, asm.set.classOf? (labelName address) = none
  string : ∀ index, asm.set.classOf? (stringName index) = none

section Listing

variable {asm : Assembler} {context : Context} {cells : List Cell}

theorem readable_operands (h : asm.ReadsListings) (hcontext : context.set = asm.set)
    (word : UInt64) (decoded : Decoded) (hdecode : Decoder.decode asm.set word = some decoded) :
    ∀ operand ∈ operands context decoded, operand.Readable asm.set.classOf? := by
  intro operand hoperand
  obtain ⟨⟨part, value⟩, hentry, rfl⟩ := List.mem_map.mp hoperand
  cases part with
  | constant | extra => trivial
  | immediate width =>
    rcases immediate_cases context decoded.mnemonic value with hnumber | ⟨cell, -, -, hlabel⟩
    · change (immediate context decoded.mnemonic value).Readable _
      rw [hnumber]
      trivial
    · change (immediate context decoded.mnemonic value).Readable _
      rw [hlabel]
      exact h.label _
  | typed cls width =>
    obtain ⟨-, hnamed⟩ := Decoder.slots_of_decode asm.set word decoded hdecode _
      (mem_zip_of_written decoded _ hentry)
    obtain ⟨name, hname⟩ := Option.isSome_iff_exists.mp (hnamed cls width rfl)
    have hword := Token.word_of_nameOf? asm.set cls value name hname
    obtain ⟨entry, hmem, -, -, rfl⟩ := asm.set.nameOf?_eq_some cls value name hname
    change (Operand.name ((context.set.nameOf? cls value).getD "")).Readable _
    rw [hcontext, hname]
    refine ⟨h.name entry hmem, ?_⟩
    rw [Option.getD_some, hword]
    cases cls <;> rfl

/-- The mnemonics of a listing are those of three directives and of the set. -/
theorem mnemonic_of_lists (hcells : Flow.Cells asm.set cells) (line : Line)
    (hline : Lists context cells line) (body : Statement)
    (hbody : line.body? asm.set.classOf? = some body) :
    body.name.text ∈ ["org", "dw", "db"] ++ asm.set.formats.names := by
  cases hline with
  | origin =>
    cases hbody
    exact List.mem_cons_self
  | label => cases hbody
  | byte =>
    cases hbody
    change "db" ∈ _
    exact List.mem_append_left _ (by decide)
  | data line hdata =>
    cases hdata with
    | words | string =>
      cases hbody
      change "dw" ∈ _
      exact List.mem_append_left _ (by decide)
  | code cell hcell decoded hdecoded =>
    cases hbody
    obtain ⟨-, hdecode⟩ := hcells.decoded cell hcell decoded hdecoded
    obtain ⟨hmem, -, -⟩ := Decoder.decode_eq_some _ _ decoded hdecode
    exact List.mem_append_right _ (List.mem_map_of_mem (f := Prod.fst) hmem)

theorem readable_of_lists (h : asm.ReadsListings) (hcontext : context.set = asm.set)
    (hcells : Flow.Cells asm.set cells) (line : Line) (hline : Lists context cells line) :
    line.Readable asm.set.classOf? where
  name := by
    intro name hname
    cases line with
    | label address => exact Option.some.inj hname ▸ h.label address
    | string index text terminated => exact Option.some.inj hname ▸ h.string index
    | origin | code | words | byte => cases hname
  body := by
    intro body hbody
    obtain ⟨hname, hclass, -⟩ := h.mnemonic _ (mnemonic_of_lists hcells line hline body hbody)
    exact ⟨hclass, hname⟩
  operands := by
    rintro mnemonic operands rfl
    cases hline with
    | data _ hdata => cases hdata
    | code cell hcell decoded hdecoded =>
      obtain ⟨-, hdecode⟩ := hcells.decoded cell hcell decoded hdecoded
      exact readable_operands h hcontext _ decoded hdecode

theorem plain_of_lists (hset : asm.set.Listable) (hcells : Flow.Cells asm.set cells) (line : Line)
    (hline : Lists context cells line) : line.IsPlain := by
  rintro mnemonic operands rfl
  cases hline with
  | data _ hdata => cases hdata
  | code cell hcell decoded hdecoded =>
    obtain ⟨-, hdecode⟩ := hcells.decoded cell hcell decoded hdecoded
    obtain ⟨hmem, -, -⟩ := Decoder.decode_eq_some _ _ decoded hdecode
    rw [asm.set.valid.mnemonic_lower _ hmem]
    exact hset.mnemonic _ hmem

end Listing

/-- The listing of an image assembles back to it. -/
theorem assemble_disassemble (asm : Assembler) (h : asm.ReadsListings) (origin : UInt64)
    (code : List UInt8) (file : String) :
    ∃ program, asm.assemble file (disassemble asm.set origin code).toList = .ok program ∧
      program.code = code := by
  have hlines := represents_lines asm.set h.listable origin code
  obtain ⟨context, hcontext, hlists⟩ := hlines.lists
  have hcells := Flow.cells_spec asm.set code
  refine asm.assemble_lines _ (fun line hline => ?_) (fun line hline => ?_)
    (fun line hline body hbody => ?_) hlines.names hlines.placed code hlines.emits file
  · exact readable_of_lists h hcontext hcells line (hlists line hline)
  · exact plain_of_lists h.listable hcells line (hlists line hline)
  · exact (h.mnemonic _ (mnemonic_of_lists hcells line (hlists line hline) body hbody)).2.2

end Assembler

namespace InstructionSet

/-- A word that is longer than all names of a set is none of them. -/
theorem classOf?_of_long (set : InstructionSet) (length : Nat)
    (h : ∀ entry ∈ set.names, entry.name.toList.length ≤ length) (word : String)
    (hword : length < word.toList.length) : set.classOf? word = none := by
  rw [classOf?, Option.map_eq_none_iff, List.find?_eq_none]
  intro entry hentry hname
  have hlength := congrArg (fun name : String => name.toList.length) (of_decide_eq_true hname)
  simp only [lower, String.toList_ofList, List.length_map] at hlength
  have hle := h entry hentry
  omega

theorem zirc16_listable : zirc16.Listable where
  mnemonic := by
    rw [zirc16_eq_table]
    decide +kernel
  narrow := by
    rw [zirc16_eq_table]
    decide +kernel

end InstructionSet

namespace Assembler

/-- The built-in set has an assembler, and it reads the listings of the set. -/
theorem exists_zirc16 (strict : Bool) :
    ∃ asm, ofSet InstructionSet.zirc16 strict = .ok asm ∧ asm.set = InstructionSet.zirc16 ∧
      asm.ReadsListings := by
  have hcheck : ((PseudoTable.ofSet InstructionSet.zirc16).toOption.any fun pseudos =>
      (["org", "dw", "db"] ++ InstructionSet.zirc16.formats.names).all fun mnemonic =>
        Token.isName mnemonic && InstructionSet.zirc16.classOf? mnemonic == none &&
          !pseudos.knows (lower mnemonic)) = true := by
    rw [InstructionSet.zirc16_eq_table]
    decide +kernel
  have hnames : ∀ entry ∈ InstructionSet.zirc16.names,
      Token.isName entry.name = true ∧ entry.name.toList.length ≤ 3 := by
    rw [InstructionSet.zirc16_eq_table]
    decide +kernel
  -- no name of the set has more than three letters, and labels are longer than that
  have hlong := InstructionSet.zirc16.classOf?_of_long 3 fun entry hentry => (hnames entry hentry).2
  cases hpseudos : PseudoTable.ofSet InstructionSet.zirc16 with
  | error fault =>
    rw [hpseudos] at hcheck
    cases hcheck
  | ok pseudos =>
    rw [hpseudos] at hcheck
    refine ⟨⟨InstructionSet.zirc16, pseudos, strict⟩,
      bind_eq_ok_iff.mpr ⟨pseudos, hpseudos, rfl⟩, rfl, InstructionSet.zirc16_listable, ?_,
      fun entry hentry => (hnames entry hentry).1, fun address => hlong _ ?_,
      fun index => hlong _ ?_⟩
    · intro mnemonic hmem
      have hmnemonic := List.all_eq_true.mp hcheck mnemonic hmem
      rw [Bool.and_eq_true, Bool.and_eq_true, beq_iff_eq, Bool.not_eq_true'] at hmnemonic
      exact ⟨hmnemonic.1.1, hmnemonic.1.2, hmnemonic.2⟩
    · rw [labelName, String.toList_append, List.length_append]
      exact Nat.lt_of_lt_of_le (by decide) (Nat.le_add_right "loc_".toList.length _)
    · rw [stringName, String.toList_append, List.length_append]
      exact Nat.lt_of_lt_of_le (by decide) (Nat.le_add_right "string".toList.length _)

end Assembler

/-- Whatever its bytes and its origin are, an image that is listed with the built-in set assembles
back to the same bytes, strict or not. -/
theorem zirc16_listing_assembles_back (code : List UInt8) (origin : UInt64) (file : String)
    (strict : Bool) :
    ∃ asm program, Assembler.ofSet InstructionSet.zirc16 strict = .ok asm ∧
      asm.assemble file (disassemble InstructionSet.zirc16 origin code).toList = .ok program ∧
      program.code = code := by
  obtain ⟨asm, hasm, hset, hreads⟩ := Assembler.exists_zirc16 strict
  obtain ⟨program, hprogram, hcode⟩ := asm.assemble_disassemble hreads origin code file
  rw [hset] at hprogram
  exact ⟨asm, program, hasm, hprogram, hcode⟩

end WordAsm
