import Mathlib.Order.Bounds.Basic
import WordAsm.Proofs.AcceptedDefinitions
import WordAsm.Proofs.SetNames

/-! The name tables of a set. Names are looked up in any letter case and belong to one class; a
value is named by the least of the names that stand for it, so looking up in one direction undoes
the other. A class that formats have slots for holds values only that its widest slot has room
for. -/

namespace WordAsm

open WordAsm.Text

/-- The search for the least text keeps the lesser of two. -/
theorem foldl_least_le (rest : List String) (first : String) :
    rest.foldl (fun least text => if text < least then text else least) first ≤ first ∧
      ∀ text ∈ rest,
        rest.foldl (fun least text => if text < least then text else least) first ≤ text := by
  induction rest generalizing first with
  | nil => exact ⟨le_rfl, List.forall_mem_nil _⟩
  | cons next rest ih =>
    rw [List.foldl_cons, List.forall_mem_cons]
    have hlesser : (if next < first then next else first) ≤ first ∧
        (if next < first then next else first) ≤ next := by
      split
      · rename_i hlt
        exact ⟨hlt.le, le_rfl⟩
      · rename_i hge
        exact ⟨le_rfl, not_lt.mp hge⟩
    obtain ⟨hfirst, hrest⟩ := ih (if next < first then next else first)
    exact ⟨hfirst.trans hlesser.1, hfirst.trans hlesser.2, hrest⟩

theorem least?_eq_some_iff (texts : List String) (text : String) :
    least? texts = some text ↔ IsLeast {other | other ∈ texts} text := by
  have hleast (found : String) (h : least? texts = some found) :
      IsLeast {other | other ∈ texts} found := by
    refine ⟨least?_mem texts found h, ?_⟩
    intro other hother
    cases texts with
    | nil => cases h
    | cons first rest =>
      obtain ⟨hfirst, hrest⟩ := foldl_least_le rest first
      cases h
      rcases List.mem_cons.mp hother with rfl | hother
      · exact hfirst
      · exact hrest other hother
  constructor
  · exact hleast text
  · intro h
    -- there is a least text, and there is only one
    cases hfound : least? texts with
    | none =>
      cases texts with
      | nil => cases h.1
      | cons first rest => cases hfound
    | some found => rw [(hleast found hfound).unique h]

namespace InstructionSet

section Lookups

variable (set : InstructionSet)

/-- A name belongs to the class that it has a value in. -/
theorem classOf?_eq_some_iff_isSome (name : String) (cls : Class) :
    set.classOf? name = some cls ↔ (set.value? cls name).isSome = true := by
  rw [classOf?_eq_some_iff set, Option.isSome_iff_exists]
  simp only [value?_eq_some_iff set]
  constructor
  · rintro ⟨entry, hentry, hname, hcls⟩
    exact ⟨entry.value, entry, hentry, hcls, hname, rfl⟩
  · rintro ⟨value, entry, hentry, hcls, hname, -⟩
    exact ⟨entry, hentry, hname, hcls⟩

/-- The values that have a name are those of the entries. -/
theorem isSome_nameOf?_iff (cls : Class) (value : UInt64) :
    (set.nameOf? cls value).isSome = true ↔
      ∃ entry ∈ set.names, entry.cls = cls ∧ entry.value = value := by
  constructor
  · intro h
    obtain ⟨name, hname⟩ := Option.isSome_iff_exists.mp h
    obtain ⟨entry, hentry, hcls, hvalue, -⟩ := nameOf?_eq_some set cls value name hname
    exact ⟨entry, hentry, hcls, hvalue⟩
  · rintro ⟨entry, hentry, hcls, hvalue⟩
    apply isSome_nameOf? set cls value entry.name
    rw [value?_eq_some_iff set]
    exact ⟨entry, hentry, hcls, (set.valid.name_lower entry hentry).symm, hvalue⟩

theorem nameOf?_eq_some_iff (cls : Class) (value : UInt64) (name : String) :
    set.nameOf? cls value = some name ↔
      IsLeast {name | ∃ entry ∈ set.names, entry.cls = cls ∧ entry.value = value ∧
        entry.name = name} name := by
  rw [nameOf?, least?_eq_some_iff]
  simp only [List.mem_map, List.mem_filter, decide_eq_true_eq, and_assoc]

end Lookups

/-- Some format of the set has a slot of the class and the width. -/
def HasSlot (set : InstructionSet) (cls : Class) (width : Nat) : Prop :=
  ∃ mnemonic format, set.format? mnemonic = some format ∧ Part.typed cls width ∈ format

theorem hasSlot_iff (set : InstructionSet) (cls : Class) (width : Nat) :
    set.HasSlot cls width ↔
      width ≠ 0 ∧
        width ∈ (set.formats.flatMap Prod.snd).map (Definition.slotWidth cls) := by
  constructor
  · rintro ⟨mnemonic, format, hformat, hpart⟩
    have hentry := NameMap.mem_of_get? _ _ _ hformat
    have hpos : 1 ≤ width := (set.valid.format_wellFormed _ hentry _ hpart).width_pos
    have hwidth : width ≠ 0 := by omega
    refine ⟨hwidth, List.mem_map.mpr ⟨_, List.mem_flatMap.mpr ⟨_, hentry, hpart⟩, ?_⟩⟩
    exact (Definition.slotWidth_eq_iff cls _ width hwidth).mpr rfl
  · rintro ⟨hwidth, hmem⟩
    obtain ⟨part, hpart, hslot⟩ := List.mem_map.mp hmem
    obtain ⟨entry, hentry, hpart⟩ := List.mem_flatMap.mp hpart
    rw [Definition.slotWidth_eq_iff cls part width hwidth] at hslot
    exact ⟨entry.1, entry.2, ((set.mem_formats_iff _ _).mp hentry).2, hslot ▸ hpart⟩

/-- Where there is a slot, the widest one is the greatest of the widths. -/
theorem isGreatest_widestSlot (set : InstructionSet) (cls : Class)
    (width : Nat) (h : set.HasSlot cls width) :
    Definition.widestSlot set.formats cls ≠ 0 ∧
      IsGreatest {width | set.HasSlot cls width} (Definition.widestSlot set.formats cls) := by
  obtain ⟨hmem, hle⟩ := Definition.widestSlot_spec set.formats cls
  have hbound (other : Nat) (hother : set.HasSlot cls other) :
      other ≤ Definition.widestSlot set.formats cls := by
    apply hle
    exact List.mem_cons_of_mem 0 ((hasSlot_iff set cls other).mp hother).2
  have hne : Definition.widestSlot set.formats cls ≠ 0 := by
    have hpos := ((hasSlot_iff set cls width).mp h).1
    have hwidth := hbound width h
    omega
  refine ⟨hne, ?_, hbound⟩
  exact (hasSlot_iff set cls _).mpr ⟨hne, (List.mem_cons.mp hmem).resolve_left hne⟩

/-- What the name tables of a set owe to a definition. -/
structure Tabulates (set : InstructionSet) (d : Definition) : Prop where
  /-- A name has the value that it was defined with, in any letter case. -/
  value_iff : ∀ cls name value, set.value? cls name = some value ↔
    ∃ entry ∈ d.names, entry.cls = cls ∧ lower entry.name = lower name ∧ entry.value = value
  /-- No name has values in two classes. -/
  one_class : ∀ name cls cls', (set.value? cls name).isSome = true →
    (set.value? cls' name).isSome = true → cls = cls'
  /-- The class of a name is the one that it has a value in. -/
  class_iff : ∀ name cls, set.classOf? name = some cls ↔ (set.value? cls name).isSome = true
  /-- The values that have a name are those that some name was defined with. -/
  named_iff : ∀ cls value, (set.nameOf? cls value).isSome = true ↔
    ∃ entry ∈ d.names, entry.cls = cls ∧ entry.value = value
  /-- Of several names a value has the one whose bytes come first. -/
  least : ∀ cls value name, set.nameOf? cls value = some name →
    (∃ entry ∈ d.names, entry.cls = cls ∧ entry.value = value ∧ lower entry.name = name) ∧
      ∀ entry ∈ d.names, entry.cls = cls → entry.value = value →
        encode name.toList ≤ encode (lower entry.name).toList
  /-- The name of a value stands for it. -/
  value_name : ∀ cls value name, set.nameOf? cls value = some name →
    set.value? cls name = some value
  /-- The widest slot of a class has room for every value of the class. -/
  fits : ∀ cls width, set.HasSlot cls width →
    ∃ widest, IsGreatest {width | set.HasSlot cls width} widest ∧
      ∀ name value, set.value? cls name = some value → value.toNat < 2 ^ widest

end InstructionSet

/-- The tables of an accepted definition hold what it defines, and are inverse to one another. -/
theorem name_tables_are_inverse (d : Definition) (set : InstructionSet)
    (hset : InstructionSet.ofDefinition d = .ok set) : set.Tabulates d := by
  obtain ⟨htables, -⟩ := (InstructionSet.ofDefinition_eq_ok_iff d set).mp hset
  obtain ⟨-, -, hnames, -, hvalues, -⟩ := (Definition.tables_eq_ok_iff ..).mp htables
  have hclass := set.classOf?_eq_some_iff_isSome
  constructor
  case value_iff =>
    intro cls name value
    rw [set.value?_eq_some_iff, hnames]
    simp [Definition.lowered]
  case one_class =>
    intro name cls cls' hcls hcls'
    rw [← hclass] at hcls hcls'
    exact Option.some.inj (hcls.symm.trans hcls')
  case class_iff => exact hclass
  case named_iff =>
    intro cls value
    rw [set.isSome_nameOf?_iff, hnames]
    simp [Definition.lowered]
  case least =>
    intro cls value name hname
    obtain ⟨hmem, hle⟩ := (set.nameOf?_eq_some_iff cls value name).mp hname
    rw [hnames] at hmem hle
    constructor
    · simpa [Definition.lowered] using hmem
    · intro entry hentry hcls hvalue
      rw [encode_le_iff]
      exact hle ⟨_, List.mem_map_of_mem hentry, hcls, hvalue, rfl⟩
  case value_name => exact set.value?_of_nameOf?
  case fits =>
    intro cls width hslot
    obtain ⟨hne, hgreatest⟩ := set.isGreatest_widestSlot cls width hslot
    refine ⟨_, hgreatest, ?_⟩
    intro name value hvalue
    obtain ⟨entry, hentry, rfl, -, rfl⟩ := (set.value?_eq_some_iff _ _ _).mp hvalue
    exact (Definition.wideValue?_eq_none_iff _ _).mp hvalues entry hentry hne

/-- Registers with aliases, one of them beyond the narrower of two slots, beside a condition. -/
def aliases : Definition where
  name := "aliases"
  width := 16
  formats := [("op", "0000 \x7bR4\x7d \x7bC4\x7d \x7bR3\x7d 1")]
  names := [⟨"SP", .register, 15⟩, ⟨"R15", .register, 15⟩, ⟨"Zero", .register, 0⟩,
    ⟨"al", .condition, 0⟩]
  pseudos := []
  branches := []
  terminals := []

def aliases.op : Format :=
  [.constant 4 0, .typed .register 4, .typed .condition 4, .typed .register 3, .constant 1 1]

def aliases.set : InstructionSet :=
  ⟨"aliases", 16, [("op", op)],
    [⟨"sp", .register, 15⟩, ⟨"r15", .register, 15⟩, ⟨"zero", .register, 0⟩, ⟨"al", .condition, 0⟩],
    [], [], [], by decide +kernel⟩

/-- A value that only the wider slot has room for is accepted, and the first of its names in lower
case is the one that it is given. -/
theorem aliases_tabulated :
    InstructionSet.ofDefinition aliases = .ok aliases.set ∧ aliases.set.Tabulates aliases ∧
      aliases.set.HasSlot .register 3 ∧ aliases.set.value? .register "sP" = some 15 ∧
      aliases.set.nameOf? .register 15 = some "r15" ∧
      aliases.set.classOf? "AL" = some .condition := by
  have hset : InstructionSet.ofDefinition aliases = .ok aliases.set := by
    decide +kernel
  refine ⟨hset, name_tables_are_inverse aliases _ hset, ⟨"op", aliases.op, ?_, ?_⟩, ?_, ?_, ?_⟩
  · decide +kernel
  · decide
  · decide +kernel
  · decide +kernel
  · decide +kernel

end WordAsm
