import WordAsm.Proofs.InstructionCoding
import WordAsm.Proofs.Surroundings

/-! Real instructions on their way through the assembler. No pseudo-instruction takes the name of a
real one, so expansion leaves real instructions alone. A directive may have such a name: layout and
image then take every instruction of that name for the directive, and some instruction that its
format accepts is not encoded. -/

namespace WordAsm

namespace PseudoTable

/-- A table has no pseudo-instruction under the name of an instruction of the set. -/
theorem format?_of_mem_ofSet (set : InstructionSet) (table : PseudoTable)
    (h : ofSet set = .ok table) : ∀ pseudo ∈ table, set.format? pseudo.name = none := by
  refine foldlM_invariant (add set) (fun table => ∀ pseudo ∈ table, set.format? pseudo.name = none)
    ?_ set.pseudos [] table (List.forall_mem_nil _) h
  intro known text table hknown hadd
  obtain ⟨pseudo, -, hadd⟩ := bind_eq_ok_iff.mp hadd
  obtain ⟨_, hname, hadd⟩ := bind_eq_ok_iff.mp hadd
  obtain ⟨_, -, hadd⟩ := bind_eq_ok_iff.mp hadd
  cases hadd
  have hname := Option.isNone_iff_eq_none.mp ((require_eq_ok_iff ..).mp hname)
  exact List.forall_mem_append.mpr ⟨hknown, List.forall_mem_singleton.mpr hname⟩

theorem expands_of_format? (set : InstructionSet) (table : PseudoTable) (h : ofSet set = .ok table)
    (statement : Statement) (hformat : (set.format? statement.mnemonic).isSome = true) :
    table.expands statement = false := by
  rw [expands, Bool.and_eq_false_iff]
  right
  apply List.any_eq_false.mpr
  intro pseudo hmem hname
  rw [← of_decide_eq_true hname, format?_of_mem_ofSet set table h pseudo hmem] at hformat
  cases hformat

end PseudoTable

namespace Assembler

variable (asm : Assembler)

/-- Expansion leaves the statement as it is, wherever it stands. -/
def LeavesAlone (statement : Statement) : Prop :=
  ∀ front back first second, asm.pseudos.expand front = .ok first →
    asm.pseudos.expand back = .ok second →
    asm.pseudos.expand (front ++ statement :: back) = .ok (first ++ statement :: second)

/-- Wherever the statement is put into a program that has a layout, it has the place of one
instruction there. -/
def GivesWordTo (statement : Statement) : Prop :=
  ∀ front back, (∃ layout, asm.layout (front ++ back) = .ok layout) →
    ∃ layout, asm.layout (front ++ statement :: back) = .ok layout ∧
      layout.statements[Layout.rank front]? = some { statement with
        address := Layout.addressBehind asm.set.width front
        size := UInt64.ofNat (asm.set.width / 8) }

/-- Wherever the statement stands in what is put into an image, it adds the bytes of `word`. -/
def EncodesAs (statement : Statement) (word : UInt64) : Prop :=
  ∀ front back first second, Image.generate asm.set front = .ok first →
    Image.generate asm.set back = .ok second →
    Image.generate asm.set (front ++ statement :: back) =
      .ok (first ++ Word.encode asm.set.width word ++ second)

end Assembler

namespace Directive

theorem dataSize_append (slotSize : Nat) (args more : List Token) :
    dataSize slotSize (args ++ more) = dataSize slotSize args + dataSize slotSize more := by
  induction args with
  | nil => rw [List.nil_append, dataSize, Nat.zero_add]
  | cons arg args ih => rw [List.cons_append, dataSize, dataSize, ih, Nat.add_assoc]

theorem slotSize?_pos (mnemonic : String) (slotSize : Nat)
    (h : slotSize? mnemonic = some slotSize) : 0 < slotSize := by
  unfold slotSize? at h
  split_ifs at h
  all_goals
    cases h
    decide

end Directive

namespace Layout

variable {strict : Bool}

/-- Arguments that refer to no label are left as they are. -/
theorem eq_of_resolvesTo {labels : NameMap UInt64} {args results : List Token}
    (h : List.Forall₂ (Token.ResolvesTo labels) args results)
    (hargs : ∀ arg ∈ args, arg.kind ≠ .identifier) : results = args := by
  induction h with
  | nil => rfl
  | cons hfirst _ ih =>
    rw [List.forall_mem_cons] at hargs
    rcases hfirst with ⟨hkind, -⟩ | ⟨-, rfl⟩
    · exact absurd hkind hargs.1
    · rw [ih hargs.2]

/-- An instruction without references can be put anywhere. -/
theorem Resolvable.insert (front back : List Statement) (h : Resolvable strict (front ++ back))
    (statement : Statement) (hretained : statement.retained = true)
    (hargs : ∀ arg ∈ statement.args, arg.kind ≠ .identifier) :
    Resolvable strict (front ++ statement :: back) := by
  have hmem (other : Statement) (hother : other ∈ front ++ statement :: back) :
      other = statement ∨ other ∈ front ++ back := by
    simpa [or_left_comm] using hother
  have hsub (other : Statement) (hother : other ∈ front ++ back) :
      other ∈ front ++ statement :: back := by
    simp only [List.mem_append, List.mem_cons] at hother ⊢
    exact hother.imp_right .inr
  obtain ⟨hkind, hname⟩ := statement.retained_iff.mp hretained
  constructor
  · intro other hother horigin
    rcases hmem other hother with rfl | hother
    · rw [Statement.setsOrigin_iff, hname] at horigin
      cases horigin.2
    · exact h.origins other hother horigin
  · intro other hother hother' arg harg harg'
    rcases hmem other hother with rfl | hother
    · exact absurd harg' (hargs arg harg)
    · obtain ⟨label, hlabel, hdefines⟩ := h.references other hother hother' arg harg harg'
      exact ⟨label, hsub label hlabel, hdefines⟩
  · -- the statement defines nothing, so the labels are as distinct as they were
    intro hstrict
    have hnames : labelNames (front ++ statement :: back) = labelNames (front ++ back) := by
      simp [labelNames, hkind]
    rw [hnames]
    exact h.distinct hstrict

end Layout

namespace Image

/-- One zero more is the value of an extra that was left out, or it is ignored. -/
theorem Given.snoc_zero {set : InstructionSet} {parts : List Part} {args : List Token}
    {values : List UInt64} (h : Given set parts args values) (pos : Position) :
    Given set parts (args ++ [.ofValue 0 pos]) values := by
  induction h with
  | done args => exact .done _
  | leftOut hrest _ => exact .taken ⟨Token.value_ofValue 0 pos, Nat.two_pow_pos _⟩ hrest
  | taken harg _ ih => exact .taken harg ih

/-- The arguments are what the format of the mnemonic takes, and give this word. -/
structure Accepts (set : InstructionSet) (mnemonic : String) (statement : Statement)
    (word : UInt64) : Prop where
  kind : statement.kind = .instruction
  mnemonic : statement.mnemonic = mnemonic
  word : instructionWord set statement = .ok word

namespace Accepts

variable {set : InstructionSet} {mnemonic : String} {statement : Statement} {word : UInt64}

theorem ne_label (h : Accepts set mnemonic statement word) : statement.kind ≠ .label := by
  rw [h.kind]
  decide

theorem snoc_zero (h : Accepts set mnemonic statement word) (pos : Position) :
    Accepts set mnemonic { statement with args := statement.args ++ [.ofValue 0 pos] } word := by
  obtain ⟨format, slots, hformat, hgiven, hword⟩ :=
    (instructionWord_eq_ok_iff set ..).mp h.word
  refine ⟨h.kind, h.mnemonic, (instructionWord_eq_ok_iff set ..).mpr ?_⟩
  exact ⟨format, slots, hformat, hgiven.snoc_zero pos, hword⟩

/-- An instruction that no directive has the name of is encoded in its place. -/
theorem encodesAs {asm : Assembler} (h : Accepts asm.set mnemonic statement word)
    (hname : Directive.isDirective mnemonic = false) : asm.EncodesAs statement word := by
  have hbytes : statementBytes asm.set statement = .ok (Word.encode asm.set.width word) := by
    rw [← h.mnemonic] at hname
    rw [statementBytes_of_instruction asm.set statement h.ne_label hname, instructionBytes, h.word]
    rfl
  intro front back first second hfront hback
  rw [List.append_assoc, ← List.singleton_append]
  apply (generate_append_iff ..).mpr
  refine ⟨first, _, hfront, (generate_append_iff ..).mpr ?_, rfl⟩
  exact ⟨_, second, (generate_singleton_iff ..).mpr hbytes, hback, rfl⟩

theorem givesWordTo {asm : Assembler}
    (h : Accepts asm.set mnemonic statement word) (hname : Directive.isDirective mnemonic = false)
    (hargs : ∀ arg ∈ statement.args, arg.kind ≠ .identifier) : asm.GivesWordTo statement := by
  rw [← h.mnemonic, Directive.isDirective, Bool.or_eq_false_iff, Option.isSome_eq_false_iff,
    Option.isNone_iff_eq_none] at hname
  have hretained : statement.retained = true := statement.retained_iff.mpr ⟨h.ne_label, hname.2⟩
  intro front back hlayout
  have hresolvable := (Layout.exists_resolve_iff (front ++ back)).mp hlayout
  obtain ⟨layout, hlayout⟩ := (Layout.exists_resolve_iff (front ++ statement :: back)).mpr
    (hresolvable.insert front back statement hretained hargs)
  refine ⟨layout, hlayout, ?_⟩
  obtain ⟨args, hresolved, hplace⟩ := (Layout.describes_of_resolve _ layout hlayout).retained
    front statement back rfl hretained
  have hsize : Layout.sizeOf asm.set.width statement = UInt64.ofNat (asm.set.width / 8) := by
    have heven : asm.set.width / 16 * 2 = asm.set.width / 8 := by
      have := asm.set.valid.width_mod
      omega
    rw [Layout.sizeOf, hname.1, ← heven]
  rw [hplace, Layout.eq_of_resolvesTo hresolved hargs, hsize]

/-- The bytes of a data directive are not the word of an instruction both with another zero and
without. -/
theorem not_data {asm : Assembler}
    (h : Accepts asm.set mnemonic statement word)
    (hencodes : ∀ statement word, Accepts asm.set mnemonic statement word →
      asm.EncodesAs statement word) : Directive.slotSize? mnemonic = none := by
  by_contra hslot
  obtain ⟨slotSize, hslot⟩ := Option.ne_none_iff_exists'.mp hslot
  have hsize {other : Statement} (hother : Accepts asm.set mnemonic other word) :
      Directive.dataSize slotSize other.args = asm.set.width / 8 := by
    have hbytes := (generate_singleton_iff ..).mp (hencodes other word hother [] [] [] [] rfl rfl)
    rw [← hother.mnemonic] at hslot
    rw [statementBytes_of_data asm.set other slotSize hother.ne_label hslot] at hbytes
    rw [← length_dataBytes slotSize other _ hbytes, List.append_nil]
    exact Word.toBytes_length _ _
  -- with one zero more the data is longer, but the word would be the same
  have hmore := hsize (h.snoc_zero .nowhere)
  rw [Directive.dataSize_append, hsize h] at hmore
  have hpos := Directive.slotSize?_pos mnemonic slotSize hslot
  have hzero : Directive.dataSize slotSize [.ofValue 0 .nowhere] = slotSize := by
    rw [Directive.dataSize, Directive.dataSize, Nat.add_zero]
    exact Nat.one_mul slotSize
  omega

theorem not_origin {asm : Assembler} (h : Accepts asm.set mnemonic statement word)
    (hencodes : asm.EncodesAs statement word) : Directive.isOrigin mnemonic = false := by
  by_contra horigin
  rw [Bool.not_eq_false, ← h.mnemonic] at horigin
  have hbytes := (generate_singleton_iff ..).mp (hencodes [] [] [] [] rfl rfl)
  rw [statementBytes, if_neg h.ne_label, if_pos horigin] at hbytes
  cases hbytes

end Accepts

end Image

/-- Expansion leaves every real instruction alone. What the format of a mnemonic accepts gets a
place of one word and is encoded as that word, in any surroundings, exactly when the mnemonic is not
that of a directive, or its format accepts nothing at all. -/
theorem real_mnemonics_assemble_iff (set : InstructionSet) (strict : Bool) (asm : Assembler)
    (hasm : Assembler.ofSet set strict = .ok asm) (mnemonic : String)
    (hmem : mnemonic ∈ set.mnemonics) :
    (∀ statement : Statement, statement.mnemonic = mnemonic → asm.LeavesAlone statement) ∧
    ((∀ statement word, Image.Accepts set mnemonic statement word →
        ((∀ arg ∈ statement.args, arg.kind ≠ .identifier) → asm.GivesWordTo statement) ∧
          asm.EncodesAs statement word) ↔
      Directive.isDirective mnemonic = false ∨
        ∀ statement word, ¬ Image.Accepts set mnemonic statement word) := by
  obtain ⟨pseudos, hpseudos, hasm⟩ := bind_eq_ok_iff.mp hasm
  cases hasm
  constructor
  · intro statement hname
    obtain ⟨entry, hentry, rfl⟩ : ∃ entry ∈ set.formats, entry.1 = mnemonic :=
      List.mem_map.mp ((mem_sortBy _ mnemonic set.formats.names).mp hmem)
    obtain ⟨-, hformat⟩ := (InstructionSet.mem_formats_iff set ..).mp hentry
    have hplain : pseudos.expands statement = false := by
      apply PseudoTable.expands_of_format? set pseudos hpseudos
      rw [hname, hformat]
      rfl
    intro front back first second hfront hback
    apply (PseudoTable.expand_around_iff statement _
      (PseudoTable.expandAt_of_plain 0 statement hplain) ..).mpr
    exact ⟨first, second, hfront, hback, rfl⟩
  · constructor
    · intro h
      by_cases haccepts : ∃ statement word, Image.Accepts set mnemonic statement word
      · obtain ⟨statement, word, haccepts⟩ := haccepts
        have hencodes := (h statement word haccepts).2
        -- one accepted instruction is enough: it is an origin, or data of two lengths
        left
        rw [Directive.isDirective, haccepts.not_origin hencodes, haccepts.not_data
          fun statement word haccepts => (h statement word haccepts).2]
        rfl
      · right
        intro statement word haccept
        exact haccepts ⟨statement, word, haccept⟩
    · rintro (hname | hnone) statement word haccepts
      · exact ⟨haccepts.givesWordTo hname, haccepts.encodesAs hname⟩
      · exact absurd haccepts (hnone statement word)

/-- A set with an instruction under the name of a data directive. -/
def storeBytes : Definition where
  name := "store"
  width := 16
  formats := [("put", "00000001 \x7bIMM8\x7d"), ("db", "00000000 \x7bIMM8\x7d")]
  names := []
  pseudos := []
  branches := []
  terminals := []

namespace StoreBytes

def set : InstructionSet where
  name := "store"
  width := 16
  formats :=
    [("put", [.constant 8 1, .immediate 8]), ("db", [.constant 8 0, .immediate 8])]
  names := []
  pseudos := []
  branches := []
  terminals := []
  valid := by decide +kernel

/-- The instruction `db 5`. -/
def five : Statement :=
  .unplaced .instruction (.plain .identifier "db" (.start "")) [.ofValue 5 (.start "")]

end StoreBytes

/-- One of the two instructions is always encoded, the other is not. -/
theorem storeBytes_put_assembles :
    InstructionSet.ofDefinition storeBytes = .ok StoreBytes.set ∧
      ∃ asm, Assembler.ofSet StoreBytes.set true = .ok asm ∧
        (∀ statement word, Image.Accepts StoreBytes.set "put" statement word →
          asm.EncodesAs statement word) ∧
        ¬ ∀ statement word, Image.Accepts StoreBytes.set "db" statement word →
          ((∀ arg ∈ statement.args, arg.kind ≠ .identifier) → asm.GivesWordTo statement) ∧
            asm.EncodesAs statement word := by
  have hset : InstructionSet.ofDefinition storeBytes = .ok StoreBytes.set := by
    decide +kernel
  have hasm : Assembler.ofSet StoreBytes.set true = .ok ⟨StoreBytes.set, [], true⟩ := by
    decide +kernel
  have hput := real_mnemonics_assemble_iff StoreBytes.set true _ hasm "put" (by decide +kernel)
  have hdb := real_mnemonics_assemble_iff StoreBytes.set true _ hasm "db" (by decide +kernel)
  refine ⟨hset, _, hasm, ?_, ?_⟩
  · intro statement word haccepts
    exact (hput.2.mpr (.inl (by decide +kernel)) statement word haccepts).2
  · intro hall
    rcases hdb.2.mp hall with hname | hnone
    · exact absurd hname (by decide +kernel)
    · exact hnone StoreBytes.five 5 ⟨rfl, by decide +kernel, by decide +kernel⟩

/-- The instruction `db 5` is accepted with the word 5, but it is placed and encoded as the single
byte of the directive. -/
theorem storeBytes_db_is_data :
    InstructionSet.ofDefinition storeBytes = .ok StoreBytes.set ∧
      Assembler.ofSet StoreBytes.set true = .ok ⟨StoreBytes.set, [], true⟩ ∧
      "db" ∈ StoreBytes.set.mnemonics ∧
      Image.instructionBytes StoreBytes.set StoreBytes.five = .ok [0, 5] ∧
      Layout.resolve 16 true [StoreBytes.five] =
        .ok ⟨[{ StoreBytes.five with address := 0, size := 1 }], []⟩ ∧
      Image.generate StoreBytes.set [StoreBytes.five] = .ok [5] := by
  decide +kernel

end WordAsm
