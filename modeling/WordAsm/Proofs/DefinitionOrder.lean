import Mathlib.Data.List.Perm.Basic
import WordAsm.Proofs.BuiltinSet
import WordAsm.Proofs.NameTables

/-! Definitions in another order. Formats and names are given as collections, and the order in which
they are gone through should not show in the set. For names it never does, since no two of them may
be the same in lower case. Mnemonics are not compared with one another, and of two that are the same
in lower case the later one counts: where their formats differ the order shows, and only there. -/

namespace WordAsm

open WordAsm.Text

namespace InstructionSet

/-- Two sets give the same answers. -/
structure Agrees (set set' : InstructionSet) : Prop where
  mnemonics : set.mnemonics = set'.mnemonics
  format : ∀ mnemonic, set.format? mnemonic = set'.format? mnemonic
  classOf : ∀ word, set.classOf? word = set'.classOf? word
  value : ∀ cls name, set.value? cls name = set'.value? cls name
  nameOf : ∀ cls value, set.nameOf? cls value = set'.nameOf? cls value
  isBranch : ∀ mnemonic, set.isBranch mnemonic = set'.isBranch mnemonic
  isTerminal : ∀ mnemonic, set.isTerminal mnemonic = set'.isTerminal mnemonic

/-- Sets that hold the same entries give the same answers. -/
theorem agrees_of_perm (set set' : InstructionSet)
    (hformats : set.formats.Perm set'.formats) (hnames : set.names.Perm set'.names)
    (hbranches : set.branches = set'.branches) (hterminals : set.terminals = set'.terminals) :
    set.Agrees set' := by
  constructor
  case mnemonics => exact sortTexts_eq_of_perm (hformats.map Prod.fst)
  case format =>
    intro mnemonic
    exact NameMap.get?_eq_of_perm set.valid.mnemonics_nodup hformats (lower mnemonic)
  case classOf =>
    intro word
    apply Option.ext
    intro cls
    simp only [classOf?_eq_some_iff, hnames.mem_iff]
  case value =>
    intro cls name
    apply Option.ext
    intro value
    simp only [value?_eq_some_iff, hnames.mem_iff]
  case nameOf =>
    intro cls value
    apply Option.ext
    intro name
    simp only [nameOf?_eq_some_iff, hnames.mem_iff]
  case isBranch =>
    intro mnemonic
    rw [isBranch, isBranch, hbranches]
  case isTerminal =>
    intro mnemonic
    rw [isTerminal, isTerminal, hterminals]

end InstructionSet

namespace Definition

/-- The same definition with its formats and its names in another order. -/
structure Reordered (d d' : Definition) : Prop where
  formats : d.formats.Perm d'.formats
  names : d.names.Perm d'.names
  name : d.name = d'.name
  width : d.width = d'.width
  pseudos : d.pseudos = d'.pseudos
  branches : d.branches = d'.branches
  terminals : d.terminals = d'.terminals

theorem Reordered.symm {d d' : Definition} (h : d.Reordered d') : d'.Reordered d :=
  ⟨h.formats.symm, h.names.symm, h.name.symm, h.width.symm, h.pseudos.symm, h.branches.symm,
    h.terminals.symm⟩

theorem Reordered.trans {d d' d'' : Definition} (h : d.Reordered d') (h' : d'.Reordered d'') :
    d.Reordered d'' :=
  ⟨h.formats.trans h'.formats, h.names.trans h'.names, h.name.trans h'.name,
    h.width.trans h'.width, h.pseudos.trans h'.pseudos, h.branches.trans h'.branches,
    h.terminals.trans h'.terminals⟩

/-- Both definitions are refused, or both are accepted and their sets give the same answers. -/
def SameOutcome (d d' : Definition) : Prop :=
  ((∃ fault, InstructionSet.ofDefinition d = .error fault) ∧
    ∃ fault, InstructionSet.ofDefinition d' = .error fault) ∨
  ∃ set set', InstructionSet.ofDefinition d = .ok set ∧ InstructionSet.ofDefinition d' = .ok set' ∧
    set.Agrees set'

/-- Two mnemonics that are the same in lower case have different formats. -/
def Clashes (d : Definition) : Prop :=
  ∃ entry ∈ d.formats, ∃ other ∈ d.formats,
    lower entry.1 = lower other.1 ∧ formatOf? entry.2 ≠ formatOf? other.2

theorem not_clashes_of_nodup (d : Definition)
    (h : (d.formats.map fun entry => lower entry.1).Nodup) : ¬ d.Clashes := by
  rintro ⟨entry, hentry, other, hother, hname, hne⟩
  rw [List.inj_on_of_nodup_map h hentry hother hname] at hne
  exact hne rfl

theorem not_clashes_of_reordered {d d' : Definition} (h : d.Reordered d') (hd : ¬ d.Clashes) :
    ¬ d'.Clashes := by
  rintro ⟨entry, hentry, other, hother, hclash⟩
  exact hd ⟨entry, h.formats.mem_iff.mpr hentry, other, h.formats.mem_iff.mpr hother, hclash⟩

/-- Classes that have no names are the same in any order. -/
theorem emptyClass?_eq_of_perm {names names' : List NamedValue} (h : names.Perm names')
    (format : Format) : emptyClass? names format = emptyClass? names' format := by
  simp only [emptyClass?, h.any_eq]

theorem describes_iff_of_perm {names names' : List NamedValue} (h : names.Perm names')
    (width : Nat) (text : String) (format : Format) :
    Describes width names text format ↔ Describes width names' text format := by
  rw [Describes, Describes, emptyClass?_eq_of_perm h]

theorem widestSlot_eq_of_perm {formats formats' : NameMap Format} (h : formats.Perm formats')
    (cls : Class) : widestSlot formats cls = widestSlot formats' cls := by
  rw [widestSlot, widestSlot]
  exact ((h.flatMap_right Prod.snd).map (slotWidth cls)).foldl_eq 0

/-- Values are checked against the widest slots, whatever the order. -/
theorem wideValue?_eq_none_of_perm {formats formats' : NameMap Format}
    {names names' : List NamedValue} (hformats : formats.Perm formats')
    (hnames : names.Perm names') (h : wideValue? formats names = none) :
    wideValue? formats' names' = none := by
  rw [wideValue?_eq_none_iff] at h ⊢
  intro entry hentry
  rw [← widestSlot_eq_of_perm hformats]
  exact h entry (hnames.mem_iff.mpr hentry)

theorem unknownHint?_eq_of_perm {formats formats' : NameMap Format}
    (hnodup : formats.names.Nodup) (h : formats.Perm formats') (hints : List String) :
    unknownHint? formats hints = unknownHint? formats' hints := by
  simp only [unknownHint?, NameMap.get?_eq_of_perm hnodup h]

/-- Without a clash the formats are those of all entries, under their mnemonics in lower case. -/
theorem mem_formats_iff_of_not_clashes (d : Definition) (hd : ¬ d.Clashes)
    (names : List NamedValue) (formats : NameMap Format)
    (h : d.formats.foldlM (addFormat d.width names) [] = .ok formats) (mnemonic : String)
    (format : Format) :
    (mnemonic, format) ∈ formats ↔
      ∃ entry ∈ d.formats, lower entry.1 = mnemonic ∧ formatOf? entry.2 = some format := by
  have hnodup := nodup_addFormats d.width names d.formats formats h
  rw [NameMap.mem_iff_get? formats hnodup, get?_addFormats d.width names d.formats formats h,
    lastFor?, Option.bind_eq_some_iff]
  constructor
  · rintro ⟨entry, hentry, hformat⟩
    have hname : lower entry.1 = mnemonic := by simpa using List.find?_some hentry
    exact ⟨entry, List.mem_reverse.mp (List.mem_of_find?_eq_some hentry), hname, hformat⟩
  · rintro ⟨entry, hentry, hname, hformat⟩
    -- the last entry for the mnemonic need not be this one, but it has the same format
    have hsome : (d.formats.reverse.find? fun entry => lower entry.1 = mnemonic).isSome = true := by
      rw [List.find?_isSome]
      exact ⟨entry, List.mem_reverse.mpr hentry, by simpa using hname⟩
    obtain ⟨last, hlast⟩ := Option.isSome_iff_exists.mp hsome
    have hlastName : lower last.1 = mnemonic := by simpa using List.find?_some hlast
    refine ⟨last, hlast, ?_⟩
    by_contra hne
    apply hd
    refine ⟨last, List.mem_reverse.mp (List.mem_of_find?_eq_some hlast), entry, hentry, ?_, ?_⟩
    · rw [hlastName, hname]
    · rw [hformat]
      exact hne

/-- Without a clash a definition is accepted in any order, with sets that give the same answers. -/
theorem accepted_of_reordered {d d' : Definition} (h : d.Reordered d') (hd : ¬ d.Clashes)
    (set : InstructionSet) (hset : InstructionSet.ofDefinition d = .ok set) :
    ∃ set', InstructionSet.ofDefinition d' = .ok set' ∧ set.Agrees set' := by
  obtain ⟨htables, -, -, -, hsetBranches, hsetTerminals⟩ :=
    (InstructionSet.ofDefinition_eq_ok_iff d set).mp hset
  obtain ⟨hwidth, hnodup, hlowered, hformats, hvalues, hbranches, hterminals⟩ :=
    (tables_eq_ok_iff ..).mp htables
  have hnames : set.names.Perm (d'.names.map lowered) := hlowered ▸ h.names.map lowered
  -- every format is accepted on its own, so all of them are in the other order too
  obtain ⟨formats', hformats'⟩ :
      ∃ formats', d'.formats.foldlM (addFormat d'.width (d'.names.map lowered)) [] =
        .ok formats' := by
    rw [exists_addFormats_iff]
    intro entry hentry
    obtain ⟨format, hformat⟩ := (exists_addFormats_iff ..).mp ⟨_, hformats⟩ entry
      (h.formats.mem_iff.mpr hentry)
    rw [describes_iff_of_perm hnames, h.width] at hformat
    exact ⟨format, hformat⟩
  have hnodup' := nodup_addFormats _ _ _ formats' hformats'
  have hperm : set.formats.Perm formats' := by
    have hd' := not_clashes_of_reordered h hd
    apply (List.perm_ext_iff_of_nodup (set.valid.mnemonics_nodup.of_map _)
      (hnodup'.of_map _)).mpr
    intro entry
    rw [mem_formats_iff_of_not_clashes d hd _ _ hformats,
      mem_formats_iff_of_not_clashes d' hd' _ formats' hformats']
    simp only [h.formats.mem_iff]
  have hhint := unknownHint?_eq_of_perm set.valid.mnemonics_nodup hperm
  have htables' : d'.tables = .ok (d'.names.map lowered, formats') := by
    rw [tables_eq_ok_iff]
    refine ⟨h.width ▸ hwidth, (hnames.map _).nodup_iff.mp hnodup, rfl, hformats',
      wideValue?_eq_none_of_perm hperm hnames hvalues, ?_, ?_⟩
    · rw [← hhint, ← h.branches, hbranches]
    · rw [← hhint, ← h.terminals, hterminals]
  refine ⟨⟨d'.name, d'.width, formats', d'.names.map lowered, d'.pseudos, d'.branches, d'.terminals,
    rules_of_tables htables'⟩, ?_, ?_⟩
  · exact (InstructionSet.ofDefinition_eq_ok_iff d' _).mpr ⟨htables', rfl, rfl, rfl, rfl, rfl⟩
  · exact InstructionSet.agrees_of_perm _ _ hperm hnames (hsetBranches.trans h.branches)
      (hsetTerminals.trans h.terminals)

theorem sameOutcome_of_reordered {d d' : Definition} (h : d.Reordered d') (hd : ¬ d.Clashes) :
    d.SameOutcome d' := by
  cases hset : InstructionSet.ofDefinition d with
  | ok set =>
    obtain ⟨set', hset', hagrees⟩ := accepted_of_reordered h hd set hset
    exact .inr ⟨set, set', hset, hset', hagrees⟩
  | error fault =>
    cases hset' : InstructionSet.ofDefinition d' with
    | error fault' => exact .inl ⟨⟨fault, hset⟩, fault', hset'⟩
    | ok set' =>
      -- what is accepted in the other order is accepted in this one
      obtain ⟨set, haccepted, -⟩ := accepted_of_reordered h.symm
        (not_clashes_of_reordered h hd) set' hset'
      cases hset.symm.trans haccepted

theorem SameOutcome.accepted {d d' : Definition} (h : d.SameOutcome d') (set : InstructionSet)
    (hset : InstructionSet.ofDefinition d = .ok set) :
    ∃ set', InstructionSet.ofDefinition d' = .ok set' ∧ set.Agrees set' := by
  rcases h with ⟨⟨fault, hfault⟩, -⟩ | ⟨other, set', hother, hset', hagrees⟩
  · cases hset.symm.trans hfault
  · cases hset.symm.trans hother
    exact ⟨set', hset', hagrees⟩

/-- The order that goes through an entry last. -/
def withLast (d : Definition) (entry : String × String) : Definition :=
  { d with formats := d.formats.erase entry ++ [entry] }

theorem reordered_withLast (d : Definition) (entry : String × String) (h : entry ∈ d.formats) :
    d.Reordered (d.withLast entry) := by
  refine ⟨?_, List.Perm.refl _, rfl, rfl, rfl, rfl, rfl⟩
  calc d.formats.Perm (entry :: d.formats.erase entry) := List.perm_cons_erase h
    _ |>.Perm (d.formats.erase entry ++ [entry]) := (List.perm_append_singleton _ _).symm

/-- The entry that is gone through last decides for its mnemonic. -/
theorem format?_withLast (d : Definition) (entry : String × String) (set : InstructionSet)
    (h : InstructionSet.ofDefinition (d.withLast entry) = .ok set) :
    set.format? entry.1 = formatOf? entry.2 := by
  obtain ⟨htables, -⟩ := (InstructionSet.ofDefinition_eq_ok_iff _ set).mp h
  obtain ⟨-, -, -, hformats, -⟩ := (tables_eq_ok_iff ..).mp htables
  rw [InstructionSet.format?, get?_addFormats _ _ _ _ hformats, withLast, lastFor?,
    List.reverse_append]
  simp

end Definition

/-- The outcome does not depend on the order of a definition exactly if it is refused in every
order or no two mnemonics with different formats are the same in lower case. -/
theorem order_is_immaterial_iff (d : Definition) :
    (∀ d' d'', d.Reordered d' → d.Reordered d'' → d'.SameOutcome d'') ↔
      (∀ d', d.Reordered d' → ∃ fault, InstructionSet.ofDefinition d' = .error fault) ∨
        ¬ d.Clashes := by
  constructor
  · intro hsame
    by_cases haccepted : ∃ d' set, d.Reordered d' ∧ InstructionSet.ofDefinition d' = .ok set
    · right
      obtain ⟨d', first, hd', hfirst⟩ := haccepted
      rintro ⟨entry, hentry, other, hother, hname, hne⟩
      apply hne
      -- either of the two entries may come last, and is then the one that counts
      have hlast := d.reordered_withLast entry hentry
      have hotherLast := d.reordered_withLast other hother
      obtain ⟨set, hset, -⟩ := (hsame d' _ hd' hlast).accepted first hfirst
      obtain ⟨set', hset', hagrees⟩ := (hsame _ _ hlast hotherLast).accepted set hset
      calc Definition.formatOf? entry.2 = set.format? entry.1 :=
            (d.format?_withLast entry set hset).symm
        _ = set'.format? entry.1 := hagrees.format entry.1
        _ = set'.format? other.1 := by
            rw [InstructionSet.format?, InstructionSet.format?, hname]
        _ = Definition.formatOf? other.2 := d.format?_withLast other set' hset'
    · left
      intro d' hd'
      cases hset : InstructionSet.ofDefinition d' with
      | error fault => exact ⟨fault, rfl⟩
      | ok set => exact absurd ⟨d', set, hd', hset⟩ haccepted
  · rintro (hrefused | hd) d' d'' hd' hd''
    · exact .inl ⟨hrefused d' hd', hrefused d'' hd''⟩
    · exact Definition.sameOutcome_of_reordered (hd'.symm.trans hd'')
        (Definition.not_clashes_of_reordered hd' hd)

/-- The definition of the built-in set is accepted in any order and gives the same answers. -/
theorem zirc16_same_in_any_order :
    ∀ d, Zirc16.definition.Reordered d →
      ∃ set, InstructionSet.ofDefinition d = .ok set ∧ InstructionSet.zirc16.Agrees set := by
  intro d hd
  have hclash : ¬ Zirc16.definition.Clashes := by
    apply Definition.not_clashes_of_nodup
    decide +kernel
  have hsame := (order_is_immaterial_iff Zirc16.definition).mpr (.inr hclash)
  have hself : Zirc16.definition.Reordered Zirc16.definition := hd.trans hd.symm
  exact (hsame _ d hself hd).accepted _ InstructionSet.ofDefinition_zirc16

/-- Two spellings of one mnemonic, with different constants. -/
def spelledTwice : Definition where
  name := "twice"
  width := 16
  formats := [("op", "0000 \x7bIMM12\x7d"), ("OP", "0001 \x7bIMM12\x7d")]
  names := []
  pseudos := []
  branches := []
  terminals := []

/-- Which of two spellings counts depends on the order. -/
theorem spelledTwice_depends_on_order :
    ∃ d, spelledTwice.Reordered d ∧ ¬ spelledTwice.SameOutcome d := by
  refine ⟨{ spelledTwice with formats := spelledTwice.formats.reverse }, ?_, ?_⟩
  · exact ⟨(List.reverse_perm _).symm, List.Perm.refl _, rfl, rfl, rfl, rfl, rfl⟩
  · intro hsame
    have hset : InstructionSet.ofDefinition spelledTwice =
        .ok ⟨"twice", 16, [("op", [.constant 4 1, .immediate 12])], [], [], [], [],
          by decide +kernel⟩ := by
      decide +kernel
    have hreverse : InstructionSet.ofDefinition
        { spelledTwice with formats := spelledTwice.formats.reverse } =
        .ok ⟨"twice", 16, [("op", [.constant 4 0, .immediate 12])], [], [], [], [],
          by decide +kernel⟩ := by
      decide +kernel
    obtain ⟨set, haccepted, hagrees⟩ := hsame.accepted _ hset
    cases hreverse.symm.trans haccepted
    have hformat := hagrees.format "op"
    revert hformat
    decide +kernel

end WordAsm
