import WordAsm.InstructionSet.Definition
import WordAsm.Proofs.NameMaps
import WordAsm.Proofs.TextOrder

/-! Names and values of a set. In a valid set a name stands for the one entry that has it, the name
of a value leads back to the value, and a value that some name stands for has a name. -/

namespace WordAsm

open WordAsm.Text

/-- The least of some texts is one of them. -/
theorem least?_mem (texts : List String) (text : String) (h : least? texts = some text) :
    text ∈ texts := by
  cases texts with
  | nil => cases h
  | cons first rest =>
    have hfold : rest.foldl (fun least text => if text < least then text else least) first
        ∈ first :: rest := by
      clear h
      induction rest generalizing first with
      | nil => exact List.mem_cons_self
      | cons next rest ih =>
        rw [List.foldl_cons]
        rcases List.mem_cons.mp (ih (if next < first then next else first)) with h | h
        · rw [h]
          split
          · exact List.mem_cons_of_mem _ List.mem_cons_self
          · exact List.mem_cons_self
        · exact List.mem_cons_of_mem _ (List.mem_cons_of_mem _ h)
    exact Option.some.inj h ▸ hfold

namespace InstructionSet

theorem nameOf?_eq_some (set : InstructionSet) (cls : Class) (value : UInt64) (name : String)
    (h : set.nameOf? cls value = some name) :
    ∃ entry ∈ set.names, entry.cls = cls ∧ entry.value = value ∧ entry.name = name := by
  obtain ⟨entry, hentry, hname⟩ := List.mem_map.mp (least?_mem _ name h)
  obtain ⟨hmem, hfilter⟩ := List.mem_filter.mp hentry
  have hboth := of_decide_eq_true hfilter
  exact ⟨entry, hmem, hboth.1, hboth.2, hname⟩

/-- A search by name finds the one entry of a valid set that has the name. -/
theorem find?_name (set : InstructionSet) (entry : NamedValue)
    (hentry : entry ∈ set.names) (p : NamedValue → Bool) (hp : p entry = true)
    (hname : ∀ other, p other = true → other.name = entry.name) :
    set.names.find? p = some entry := by
  obtain ⟨other, hother⟩ := Option.isSome_iff_exists.mp (List.find?_isSome.mpr ⟨entry, hentry, hp⟩)
  have heq : other = entry := by
    apply List.inj_on_of_nodup_map set.valid.names_nodup (List.mem_of_find?_eq_some hother) hentry
    exact hname other (List.find?_some hother)
  rw [hother, heq]

/-- A name has the value of the one entry that has the name and the class. -/
theorem value?_eq_some_iff (set : InstructionSet) (cls : Class)
    (name : String) (value : UInt64) :
    set.value? cls name = some value ↔
      ∃ entry ∈ set.names, entry.cls = cls ∧ entry.name = lower name ∧ entry.value = value := by
  constructor
  · intro h
    obtain ⟨entry, hentry, hvalue⟩ := Option.map_eq_some_iff.mp h
    have hfound : entry.cls = cls ∧ entry.name = lower name := by
      simpa using List.find?_some hentry
    exact ⟨entry, List.mem_of_find?_eq_some hentry, hfound.1, hfound.2, hvalue⟩
  · rintro ⟨entry, hentry, hcls, hname, hvalue⟩
    have hfind := find?_name set entry hentry
      (fun other => other.cls = cls ∧ other.name = lower name) (by simp [hcls, hname])
    rw [value?, hfind, Option.map_some, hvalue]
    intro other hother
    rw [hname]
    exact (of_decide_eq_true hother).2

theorem classOf?_eq_some_iff (set : InstructionSet) (name : String)
    (cls : Class) :
    set.classOf? name = some cls ↔
      ∃ entry ∈ set.names, entry.name = lower name ∧ entry.cls = cls := by
  constructor
  · intro h
    obtain ⟨entry, hentry, hcls⟩ := Option.map_eq_some_iff.mp h
    have hname : entry.name = lower name := by simpa using List.find?_some hentry
    exact ⟨entry, List.mem_of_find?_eq_some hentry, hname, hcls⟩
  · rintro ⟨entry, hentry, hname, hcls⟩
    have hfind := find?_name set entry hentry (fun other => other.name = lower name)
      (by simp [hname])
    rw [classOf?, hfind, Option.map_some, hcls]
    intro other hother
    rw [hname]
    exact of_decide_eq_true hother

/-- In a valid set a name leads back to its value. -/
theorem value?_of_nameOf? (set : InstructionSet) (cls : Class) (value : UInt64)
    (name : String) (h : set.nameOf? cls value = some name) :
    set.value? cls name = some value := by
  obtain ⟨entry, hentry, hcls, hvalue, rfl⟩ := nameOf?_eq_some set cls value name h
  rw [value?_eq_some_iff set]
  exact ⟨entry, hentry, hcls, (set.valid.name_lower entry hentry).symm, hvalue⟩

/-- In a valid set the name of a value belongs to the class of the value. -/
theorem classOf?_of_nameOf? (set : InstructionSet) (cls : Class)
    (value : UInt64) (name : String) (h : set.nameOf? cls value = some name) :
    set.classOf? name = some cls := by
  obtain ⟨entry, hentry, hcls, -, rfl⟩ := nameOf?_eq_some set cls value name h
  rw [classOf?_eq_some_iff set]
  exact ⟨entry, hentry, (set.valid.name_lower entry hentry).symm, hcls⟩

/-- A value that some name stands for has a name. -/
theorem isSome_nameOf? (set : InstructionSet) (cls : Class) (value : UInt64) (name : String)
    (h : set.value? cls name = some value) : (set.nameOf? cls value).isSome = true := by
  obtain ⟨entry, hentry, hvalue⟩ := Option.map_eq_some_iff.mp h
  have hsame : entry.cls = cls ∧ entry.name = lower name := by
    simpa using List.find?_some hentry
  have hmem : entry ∈ set.names.filter fun entry => entry.cls = cls ∧ entry.value = value :=
    List.mem_filter.mpr ⟨List.mem_of_find?_eq_some hentry, by simp [hsame.1, hvalue]⟩
  -- the values that the least is taken of include this one, so there is a least
  rw [nameOf?]
  cases hlist : set.names.filter fun entry => entry.cls = cls ∧ entry.value = value with
  | nil => rw [hlist] at hmem; cases hmem
  | cons first rest => rfl

/-- The formats of a valid set are those that its mnemonics stand for. -/
theorem mem_formats_iff (set : InstructionSet) (mnemonic : String)
    (format : Format) :
    (mnemonic, format) ∈ set.formats ↔
      mnemonic ∈ set.mnemonics ∧ set.format? mnemonic = some format := by
  rw [mnemonics, sortTexts, mem_sortBy]
  constructor
  · intro hmem
    refine ⟨List.mem_map.mpr ⟨_, hmem, rfl⟩, ?_⟩
    rw [format?, set.valid.mnemonic_lower _ hmem]
    exact NameMap.get?_of_mem set.formats set.valid.mnemonics_nodup _ hmem
  · rintro ⟨hmem, hformat⟩
    obtain ⟨entry, hentry, rfl⟩ := List.mem_map.mp hmem
    rw [format?, set.valid.mnemonic_lower entry hentry] at hformat
    exact NameMap.mem_of_get? _ _ _ hformat

end InstructionSet

end WordAsm
