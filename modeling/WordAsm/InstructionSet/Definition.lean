import WordAsm.Check
import WordAsm.Format.Reader
import WordAsm.InstructionSet
import WordAsm.Proofs.LowerCase
import WordAsm.Proofs.ValidFormats

/-! Definitions of instruction sets and their validation. Names are compared in lower case and
belong to one class; every format has the width of the set and slots only of classes that have
names; every value fits the widest slot of its class; hints are given for known mnemonics. What has
been checked is kept as the proof that the set goes by the rules. -/

namespace WordAsm

open WordAsm.Text

structure Definition where
  name : String
  width : Nat
  formats : List (String × String)
  names : List NamedValue
  pseudos : List PseudoText
  branches : List String
  terminals : List String
  deriving DecidableEq, Repr

namespace Definition

inductive Fault where
  | unusableWidth (width : Nat)
  | duplicateName (name : String) (first second : Class)
  | unreadableFormat (mnemonic text : String) (fault : Format.Fault)
  | wrongFormatWidth (mnemonic : String) (width expected : Nat)
  | emptyClass (mnemonic : String) (cls : Class)
  | wideValue (entry : NamedValue) (width : Nat)
  | unknownBranch (mnemonic : String)
  | unknownTerminal (mnemonic : String)
  deriving DecidableEq, Repr

def Fault.reason : Fault → String
  | unusableWidth width =>
    "instruction width " ++ decimal width ++ " is not a multiple of 16 up to 64"
  | duplicateName name first second =>
    "name " ++ quoted name ++ " is both a " ++ first.describe ++ " and a " ++ second.describe
  | unreadableFormat mnemonic text fault =>
    mnemonic ++ ": " ++ fault.message (encode text.toList)
  | wrongFormatWidth mnemonic width expected =>
    mnemonic ++ " is " ++ decimal width ++ " bits wide, want " ++ decimal expected
  | emptyClass mnemonic cls =>
    mnemonic ++ " uses a " ++ cls.describe ++ " slot but the set defines none"
  | wideValue entry width =>
    entry.cls.describe ++ " " ++ quoted entry.name ++ " = " ++ decimal entry.value.toNat
      ++ " does not fit in " ++ decimal width ++ " bits"
  | unknownBranch mnemonic => "branch hint for unknown instruction " ++ quoted mnemonic
  | unknownTerminal mnemonic => "terminal hint for unknown instruction " ++ quoted mnemonic

/-- What is wrong with the definition of the set `name`. -/
def Fault.message (name : String) (fault : Fault) : String :=
  "invalid instruction set: " ++ name ++ ": " ++ fault.reason

/-- Adds a name in lower case, unless it is there already. -/
def addName (names : List NamedValue) (entry : NamedValue) : Except Fault (List NamedValue) :=
  match names.find? fun known => known.name = lower entry.name with
  | some known => .error (.duplicateName known.name known.cls entry.cls)
  | none => .ok (names ++ [{ entry with name := lower entry.name }])

/-- A class that the format has a slot for but no names. -/
def emptyClass? (names : List NamedValue) (format : Format) : Option Class :=
  format.findSome? fun
    | .typed cls _ => if names.any fun entry => entry.cls = cls then none else some cls
    | _ => none

/-- Reads a format and adds it under its mnemonic in lower case; a later one takes the place of an
earlier one. -/
def addFormat (width : Nat) (names : List NamedValue) (formats : NameMap Format)
    (entry : String × String) : Except Fault (NameMap Format) :=
  match Format.read (encode entry.2.toList) with
  | .error fault => .error (.unreadableFormat entry.1 entry.2 fault)
  | .ok format =>
    if format.width ≠ width then .error (.wrongFormatWidth entry.1 format.width width)
    else match emptyClass? names format with
      | some cls => .error (.emptyClass entry.1 cls)
      | none => .ok (formats.put (lower entry.1) format)

/-- The width of the slots of a class in a format, zero for parts of another kind. -/
def slotWidth (cls : Class) : Part → Nat
  | .typed slot width => if slot = cls then width else 0
  | _ => 0

/-- The widest slot of a class, zero when there is none. -/
def widestSlot (formats : NameMap Format) (cls : Class) : Nat :=
  ((formats.flatMap Prod.snd).map (slotWidth cls)).foldl max 0

/-- A value that no slot of its class can hold. -/
def wideValue? (formats : NameMap Format) (names : List NamedValue) : Option Fault :=
  names.findSome? fun entry =>
    let width := widestSlot formats entry.cls
    if width ≠ 0 ∧ !Word.fits entry.value width then some (.wideValue entry width) else none

/-- A hint for a mnemonic that has no format. -/
def unknownHint? (formats : NameMap Format) (hints : List String) : Option String :=
  hints.find? fun mnemonic => (formats.get? mnemonic).isNone

/-- Names in lower case, each of them once. -/
def GoodNames (names : List NamedValue) : Prop :=
  (∀ entry ∈ names, lower entry.name = entry.name) ∧ (names.map NamedValue.name).Nodup

theorem addName_good (names : List NamedValue) (entry : NamedValue) (names' : List NamedValue)
    (hgood : GoodNames names) (h : addName names entry = .ok names') : GoodNames names' := by
  unfold addName at h
  split at h
  · cases h
  · rename_i hnone
    cases h
    constructor
    · intro known hknown
      rcases List.mem_append.mp hknown with hknown | hknown
      · exact hgood.1 known hknown
      · rw [List.mem_singleton.mp hknown]
        exact lower_lower entry.name
    · -- the search by name came up with nothing, so the new name differs from all others
      rw [List.map_append, List.map_singleton, List.nodup_append]
      refine ⟨hgood.2, List.pairwise_singleton _ _, ?_⟩
      intro name hname other hother heq
      obtain ⟨known, hknown, rfl⟩ := List.mem_map.mp hname
      rw [List.mem_singleton.mp hother] at heq
      exact List.find?_eq_none.mp hnone known hknown (by simpa using heq)

/-- Formats of one width and of well-formed parts, under mnemonics in lower case that occur once. -/
structure GoodFormats (width : Nat) (formats : NameMap Format) : Prop where
  lower : ∀ entry ∈ formats, lower entry.1 = entry.1
  nodup : formats.names.Nodup
  width : ∀ entry ∈ formats, Format.width entry.2 = width
  wellFormed : ∀ entry ∈ formats, Format.WellFormed entry.2

theorem addFormat_good (width : Nat) (names : List NamedValue) (formats : NameMap Format)
    (entry : String × String) (formats' : NameMap Format) (hgood : GoodFormats width formats)
    (h : addFormat width names formats entry = .ok formats') : GoodFormats width formats' := by
  unfold addFormat at h
  split at h
  · cases h
  · rename_i format hread
    split at h
    · cases h
    · rename_i hwidth
      split at h
      · cases h
      · cases h
        have hall (P : String × Format → Prop) (hnew : P (Text.lower entry.1, format))
            (hold : ∀ known ∈ formats, P known) :
            ∀ known ∈ formats.put (Text.lower entry.1) format, P known := by
          intro known hknown
          rcases NameMap.mem_put formats _ _ known hknown with rfl | hknown
          · exact hnew
          · exact hold known hknown
        exact ⟨hall _ (lower_lower entry.1) hgood.lower,
          NameMap.names_put_nodup formats _ _ hgood.nodup,
          hall _ (Decidable.not_not.mp hwidth) hgood.width,
          hall _ (Format.read_wellFormed _ format hread) hgood.wellFormed⟩

/-- The names and the formats of a definition that passes all checks. -/
def tables (d : Definition) : Except Fault (List NamedValue × NameMap Format) := do
  require (d.width ≠ 0 ∧ d.width % 16 = 0 ∧ d.width ≤ 64) (.unusableWidth d.width)
  let names ← d.names.foldlM addName []
  let formats ← d.formats.foldlM (addFormat d.width names) []
  forbid (wideValue? formats names)
  forbid ((unknownHint? formats d.branches).map .unknownBranch)
  forbid ((unknownHint? formats d.terminals).map .unknownTerminal)
  return (names, formats)

theorem rules_of_tables {d : Definition} {names : List NamedValue} {formats : NameMap Format}
    (h : d.tables = .ok (names, formats)) : InstructionSet.Rules d.width formats names := by
  obtain ⟨_, hwidth, h⟩ := bind_eq_ok_iff.mp h
  obtain ⟨known, hnames, h⟩ := bind_eq_ok_iff.mp h
  obtain ⟨described, hformats, h⟩ := bind_eq_ok_iff.mp h
  obtain ⟨_, _, h⟩ := bind_eq_ok_iff.mp h
  obtain ⟨_, _, h⟩ := bind_eq_ok_iff.mp h
  obtain ⟨_, _, h⟩ := bind_eq_ok_iff.mp h
  cases h
  have hw := of_decide_eq_true (require_eq_ok_iff.mp hwidth)
  have hgoodNames : GoodNames names :=
    foldlM_invariant addName GoodNames addName_good d.names [] names
      ⟨List.forall_mem_nil _, List.nodup_nil⟩ hnames
  have hgoodFormats : GoodFormats d.width formats :=
    foldlM_invariant (addFormat d.width names) (GoodFormats d.width)
      (addFormat_good d.width names) d.formats [] formats
      ⟨List.forall_mem_nil _, List.nodup_nil, List.forall_mem_nil _, List.forall_mem_nil _⟩ hformats
  exact ⟨Nat.pos_of_ne_zero hw.1, hw.2.1, hw.2.2, hgoodNames.1, hgoodNames.2, hgoodFormats.lower,
    hgoodFormats.nodup, hgoodFormats.width, hgoodFormats.wellFormed⟩

end Definition

/-- The instruction set of a definition. -/
def InstructionSet.ofDefinition (d : Definition) : Except Definition.Fault InstructionSet :=
  match h : d.tables with
  | .error fault => .error fault
  | .ok (names, formats) => .ok {
      name := d.name
      width := d.width
      formats
      names
      pseudos := d.pseudos
      branches := d.branches
      terminals := d.terminals
      valid := Definition.rules_of_tables h }

end WordAsm
