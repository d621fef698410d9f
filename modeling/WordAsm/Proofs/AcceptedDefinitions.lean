import WordAsm.InstructionSet.Definition
import WordAsm.Proofs.Checks
import WordAsm.Proofs.NameMaps
import WordAsm.Proofs.Words

/-! Which definitions are accepted, and what their sets consist of. The names of the set are those
of the definition in lower case, and have to differ; a mnemonic stands for the last format that was
given for it, so two spellings of one mnemonic are no fault. -/

namespace WordAsm

open WordAsm.Text

namespace Definition

/-- An entry under its name in lower case. -/
def lowered (entry : NamedValue) : NamedValue :=
  { entry with name := lower entry.name }

theorem addName_eq_ok_iff (known : List NamedValue) (entry : NamedValue)
    (names : List NamedValue) :
    addName known entry = .ok names ↔
      lower entry.name ∉ known.map NamedValue.name ∧ names = known ++ [lowered entry] := by
  unfold addName
  split
  · rename_i other hother
    have hname : other.name = lower entry.name := by simpa using List.find?_some hother
    have hmem := List.mem_map_of_mem (f := NamedValue.name) (List.mem_of_find?_eq_some hother)
    rw [hname] at hmem
    simp [hmem]
  · rename_i hnone
    have hnew : lower entry.name ∉ known.map NamedValue.name := by
      intro hmem
      obtain ⟨other, hother, hname⟩ := List.mem_map.mp hmem
      exact List.find?_eq_none.mp hnone other hother (by simpa using hname)
    simp [hnew, lowered, eq_comm]

/-- Names are accepted if all of them differ, and are then kept in order. -/
theorem addNames_eq_ok_iff (entries known names : List NamedValue)
    (hknown : (known.map NamedValue.name).Nodup) :
    entries.foldlM addName known = .ok names ↔
      (names.map NamedValue.name).Nodup ∧ names = known ++ entries.map lowered := by
  induction entries generalizing known with
  | nil =>
    rw [List.foldlM_nil, List.map_nil, List.append_nil]
    constructor
    · intro h
      cases h
      exact ⟨hknown, rfl⟩
    · rintro ⟨-, rfl⟩
      rfl
  | cons entry entries ih =>
    rw [List.foldlM_cons, bind_eq_ok_iff, List.map_cons]
    have hsplit : known ++ lowered entry :: entries.map lowered =
        (known ++ [lowered entry]) ++ entries.map lowered := by simp
    -- the names so far stay distinct exactly if the next one is not among them
    have hnext (hnew : lower entry.name ∉ known.map NamedValue.name) :
        ((known ++ [lowered entry]).map NamedValue.name).Nodup := by
      rw [List.map_append, List.map_singleton]
      apply hknown.append (List.nodup_singleton _)
      rw [List.disjoint_singleton]
      exact hnew
    constructor
    · rintro ⟨next, hadd, hrest⟩
      obtain ⟨hnew, rfl⟩ := (addName_eq_ok_iff ..).mp hadd
      rw [hsplit]
      exact (ih _ (hnext hnew)).mp hrest
    · rintro ⟨hnodup, hnames⟩
      have hnew : lower entry.name ∉ known.map NamedValue.name := by
        rw [hnames, List.map_append, List.map_cons] at hnodup
        intro hmem
        exact List.disjoint_of_nodup_append hnodup hmem List.mem_cons_self
      refine ⟨_, (addName_eq_ok_iff ..).mpr ⟨hnew, rfl⟩, ?_⟩
      rw [hsplit] at hnames
      exact (ih _ (hnext hnew)).mpr ⟨hnodup, hnames⟩

/-- The text reads as a format of the width of the set and with slots only of classes that have
names. -/
def Describes (width : Nat) (names : List NamedValue) (text : String) (format : Format) : Prop :=
  Format.read (encode text.toList) = .ok format ∧ format.width = width ∧
    emptyClass? names format = none

theorem addFormat_eq_ok_iff (width : Nat) (names : List NamedValue) (known : NameMap Format)
    (entry : String × String) (formats : NameMap Format) :
    addFormat width names known entry = .ok formats ↔
      ∃ format, Describes width names entry.2 format ∧
        formats = known.put (lower entry.1) format := by
  unfold addFormat Describes
  split
  · rename_i fault hread
    simp [hread]
  · rename_i format hread
    rw [hread]
    split
    · rename_i hwidth
      simp [hwidth]
    · rename_i hwidth
      split
      · rename_i cls hcls
        simp [hcls]
      · rename_i hcls
        simp [not_not.mp hwidth, hcls, eq_comm]

/-- Formats are accepted if each of them is. -/
theorem exists_addFormats_iff (width : Nat) (names : List NamedValue)
    (entries : List (String × String)) (known : NameMap Format) :
    (∃ formats, entries.foldlM (addFormat width names) known = .ok formats) ↔
      ∀ entry ∈ entries, ∃ format, Describes width names entry.2 format := by
  apply exists_foldlM_iff
  intro known entry
  simp only [addFormat_eq_ok_iff]
  constructor
  · rintro ⟨formats, format, hformat, -⟩
    exact ⟨format, hformat⟩
  · rintro ⟨format, hformat⟩
    exact ⟨_, format, hformat, rfl⟩

theorem nodup_addFormats (width : Nat) (names : List NamedValue) (entries : List (String × String))
    (formats : NameMap Format) (h : entries.foldlM (addFormat width names) [] = .ok formats) :
    formats.names.Nodup := by
  have hgood : GoodFormats width formats := by
    apply foldlM_invariant _ _ (addFormat_good width names) entries [] formats _ h
    exact ⟨List.forall_mem_nil _, List.nodup_nil, List.forall_mem_nil _, List.forall_mem_nil _⟩
  exact hgood.nodup

/-- The format that a text reads as. -/
def formatOf? (text : String) : Option Format :=
  (Format.read (encode text.toList)).toOption

/-- The last entry that gives a format for a mnemonic in lower case. -/
def lastFor? (entries : List (String × String)) (mnemonic : String) : Option (String × String) :=
  entries.reverse.find? fun entry => lower entry.1 = mnemonic

/-- A mnemonic stands for the last format that was given for it. -/
theorem get?_addFormats (width : Nat) (names : List NamedValue) (entries : List (String × String))
    (formats : NameMap Format) (h : entries.foldlM (addFormat width names) [] = .ok formats)
    (mnemonic : String) :
    formats.get? mnemonic = (lastFor? entries mnemonic).bind fun entry => formatOf? entry.2 := by
  -- the induction takes the last entry off, since that one is put over all others
  induction entries using List.reverseRecOn generalizing formats with
  | nil =>
    cases h
    rfl
  | append_singleton entries entry ih =>
    rw [List.foldlM_append, bind_eq_ok_iff] at h
    obtain ⟨known, hknown, h⟩ := h
    rw [List.foldlM_cons, bind_eq_ok_iff] at h
    obtain ⟨_, hadd, h⟩ := h
    cases h
    obtain ⟨format, hformat, rfl⟩ := (addFormat_eq_ok_iff ..).mp hadd
    rw [NameMap.get?_put, ih known hknown, lastFor?, lastFor?, List.reverse_append]
    by_cases hname : mnemonic = lower entry.1
    · simp [hname, formatOf?, hformat.1, Except.toOption]
    · simp [hname, Ne.symm hname]

/-- The widest slot of a class is the greatest width, or zero. -/
theorem widestSlot_spec (formats : NameMap Format) (cls : Class) :
    widestSlot formats cls ∈ 0 :: (formats.flatMap Prod.snd).map (slotWidth cls) ∧
      ∀ width ∈ 0 :: (formats.flatMap Prod.snd).map (slotWidth cls),
        width ≤ widestSlot formats cls :=
  List.max?_eq_some_iff.mp List.max?_cons'

theorem slotWidth_eq_iff (cls : Class) (part : Part) (width : Nat) (hwidth : width ≠ 0) :
    slotWidth cls part = width ↔ part = .typed cls width := by
  cases part with
  | typed slot slotWidth' =>
    by_cases hslot : slot = cls
    · simp [slotWidth, hslot]
    · simp [slotWidth, hslot, hwidth.symm]
  | constant | immediate | extra => simp [slotWidth, hwidth.symm]

theorem wideValue?_eq_none_iff (formats : NameMap Format) (names : List NamedValue) :
    wideValue? formats names = none ↔
      ∀ entry ∈ names, widestSlot formats entry.cls ≠ 0 →
        entry.value.toNat < 2 ^ widestSlot formats entry.cls := by
  rw [wideValue?, List.findSome?_eq_none_iff]
  refine forall₂_congr fun entry _ => ?_
  rw [← Word.fits_iff]
  simp

/-- A definition has tables exactly if each of its checks succeeds. -/
theorem tables_eq_ok_iff (d : Definition) (names : List NamedValue) (formats : NameMap Format) :
    d.tables = .ok (names, formats) ↔
      (d.width ≠ 0 ∧ d.width % 16 = 0 ∧ d.width ≤ 64) ∧
      (names.map NamedValue.name).Nodup ∧ names = d.names.map lowered ∧
      d.formats.foldlM (addFormat d.width names) [] = .ok formats ∧
      wideValue? formats names = none ∧
      unknownHint? formats d.branches = none ∧ unknownHint? formats d.terminals = none := by
  have hnames (names : List NamedValue) := addNames_eq_ok_iff d.names [] names List.nodup_nil
  constructor
  · intro h
    obtain ⟨_, hwidth, h⟩ := bind_eq_ok_iff.mp h
    obtain ⟨known, hadd, h⟩ := bind_eq_ok_iff.mp h
    obtain ⟨described, hformats, h⟩ := bind_eq_ok_iff.mp h
    obtain ⟨_, hvalues, h⟩ := bind_eq_ok_iff.mp h
    obtain ⟨_, hbranches, h⟩ := bind_eq_ok_iff.mp h
    obtain ⟨_, hterminals, h⟩ := bind_eq_ok_iff.mp h
    cases h
    obtain ⟨hnodup, hlowered⟩ := (hnames names).mp hadd
    rw [forbid_eq_ok_iff] at hvalues
    rw [forbid_eq_ok_iff, Option.map_eq_none_iff] at hbranches hterminals
    exact ⟨of_decide_eq_true (require_eq_ok_iff.mp hwidth), hnodup, hlowered, hformats, hvalues,
      hbranches, hterminals⟩
  · rintro ⟨hwidth, hnodup, hlowered, hformats, hvalues, hbranches, hterminals⟩
    apply bind_eq_ok_iff.mpr
    refine ⟨(), require_eq_ok_iff.mpr (decide_eq_true hwidth), bind_eq_ok_iff.mpr ?_⟩
    refine ⟨names, (hnames _).mpr ⟨hnodup, hlowered⟩, bind_eq_ok_iff.mpr ⟨formats, hformats, ?_⟩⟩
    rw [hvalues, hbranches, hterminals]
    rfl

end Definition

/-- A definition is accepted exactly if it has tables, and these are the ones of its set. -/
theorem InstructionSet.ofDefinition_eq_ok_iff (d : Definition) (set : InstructionSet) :
    ofDefinition d = .ok set ↔
      d.tables = .ok (set.names, set.formats) ∧ set.name = d.name ∧ set.width = d.width ∧
        set.pseudos = d.pseudos ∧ set.branches = d.branches ∧ set.terminals = d.terminals := by
  obtain ⟨name, width, formats, names, pseudos, branches, terminals, valid⟩ := set
  unfold ofDefinition
  split
  · rename_i fault hfault
    simp [hfault]
  · rename_i known described htables
    simp only [htables, Except.ok.injEq, mk.injEq, Prod.mk.injEq]
    tauto

end WordAsm
