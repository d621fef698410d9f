import WordAsm.Listing
import WordAsm.Proofs.InstructionCoding
import WordAsm.Proofs.ListingImage
import WordAsm.Proofs.Worklist

/-! Code lines. A decoded word is listed with the names that the set has for its fields, and a
branch to a labelled cell with the label; where each label stands for the address in its name, the
line gives the bytes that were decoded. -/

namespace WordAsm

open WordAsm.Text

namespace Token

/-- A name that the set has for a value is scanned as one of its class. -/
theorem word_of_nameOf? (set : InstructionSet) (cls : Class) (value : UInt64)
    (name : String) (h : set.nameOf? cls value = some name) :
    word set.classOf? name = plain (.ofClass cls) name .nowhere := by
  have hclass := set.classOf?_of_nameOf? cls value name h
  obtain ⟨entry, hentry, -, -, rfl⟩ := set.nameOf?_eq_some cls value name h
  rw [word, hclass]
  exact congrArg (fun text => plain (.ofClass cls) text .nowhere)
    (set.valid.name_lower entry hentry)

end Token

namespace Flow

/-- The cell at an address is as many bytes from the origin as the distance of the address comes to
modulo the range of words. -/
theorem cellAt?_eq_some (size length : Nat) (origin address : UInt64) (index : Nat)
    (h : cellAt? size length origin address = some index) :
    origin ≤ address ∧ index * size = ((address - origin) * 2).toNat := by
  rw [cellAt?] at h
  split at h
  · rename_i hcell
    obtain ⟨hle, hnonneg, -, hmod⟩ := hcell
    rw [offsetOf_of_nonneg origin address hnonneg, ← Int.natCast_emod, Int.natCast_eq_zero] at hmod
    rw [offsetOf_of_nonneg origin address hnonneg, ← Int.natCast_ediv, Int.toNat_natCast] at h
    cases h
    exact ⟨hle, Nat.div_mul_cancel (Nat.dvd_of_mod_eq_zero hmod)⟩
  · cases h

/-- The cell at an address starts there, unless the distance of the address was cut when it was
counted in bytes. -/
theorem addressOf_eq_iff_of_cellAt? (size length : Nat) (origin address : UInt64) (index : Nat)
    (h : cellAt? size length origin address = some index) :
    addressOf size origin index = address ↔ (address - origin).toNat < 2 ^ 63 := by
  obtain ⟨-, hindex⟩ := cellAt?_eq_some size length origin address index h
  have hlt : (address - origin).toNat < 2 ^ 64 := (address - origin).toNat_lt
  -- twice the distance loses its highest bit, so half of that is the distance without it
  have hhalf : index * size / 2 = (address - origin).toNat % 2 ^ 63 := by
    rw [hindex, UInt64.toNat_mul]
    change (address - origin).toNat * 2 % 2 ^ 64 / 2 = _
    omega
  have haddress : address = origin + (address - origin) := by
    rw [UInt64.add_comm, UInt64.sub_add_cancel]
  rw [addressOf, hhalf]
  constructor
  · intro heq
    rw [haddress, UInt64.add_right_inj, ← haddress] at heq
    have hdistance := congrArg UInt64.toNat heq
    rw [UInt64.toNat_ofNat_of_lt' (Nat.lt_of_le_of_lt (Nat.mod_le _ _) hlt)] at hdistance
    omega
  · intro hsmall
    rw [Nat.mod_eq_of_lt hsmall, UInt64.ofNat_toNat]
    exact haddress.symm

/-- An address in the lower half of the range of words is never cut. -/
theorem toNat_sub_lt_of_cellAt? (size length : Nat) (origin address : UInt64) (index : Nat)
    (haddress : address.toNat < 2 ^ 63) (h : cellAt? size length origin address = some index) :
    (address - origin).toNat < 2 ^ 63 := by
  obtain ⟨hle, -⟩ := cellAt?_eq_some size length origin address index h
  rw [UInt64.toNat_sub_of_le _ _ hle]
  exact Nat.lt_of_le_of_lt (Nat.sub_le _ _) haddress

end Flow

namespace Listing

/-- Positions do not matter for what a slot takes. -/
theorem takes_of_bare (set : InstructionSet) (part : Part) (arg : Token) (value : UInt64)
    (h : Image.Takes set part arg.bare value) : Image.Takes set part arg value := by
  cases part with
  | constant | typed | immediate | extra => exact h

variable {set : InstructionSet} {context : Context} {labels : NameMap UInt64}

/-- An immediate is listed as a number, or as the label of the cell that it leads to. -/
theorem immediate_cases (context : Context) (mnemonic : String) (value : UInt64) :
    immediate context mnemonic value = .number value ∨
      ∃ index, Flow.cellAt? (Flow.cellSize context.set) context.length context.origin value =
          some index ∧ context.labels.contains index = true ∧
        immediate context mnemonic value =
          .label (Flow.addressOf (Flow.cellSize context.set) context.origin index) := by
  rw [immediate]
  split
  · rename_i index hindex
    split
    · rename_i hlabel
      exact .inr ⟨index, hindex, (Bool.and_eq_true_iff.mp hlabel).2, rfl⟩
    · exact .inl rfl
  · exact .inl rfl

/-- The name that a typed slot takes scans to the argument of the slot. -/
theorem token_of_typed (hcontext : context.set = set) (mnemonic : String)
    (cls : Class) (width : Nat) (value : UInt64)
    (htakes : Image.Takes set (.typed cls width)
      (Decoded.argument set .nowhere (.typed cls width, value)) value) :
    (operand context mnemonic (.typed cls width) value).token set.classOf? =
      Decoded.argument set .nowhere (.typed cls width, value) := by
  obtain ⟨name, hname⟩ := Option.isSome_iff_exists.mp (set.isSome_nameOf? cls value _ htakes.2.1)
  rw [operand, Decoded.argument, hcontext, hname]
  exact Token.word_of_nameOf? set cls value name hname

/-- An argument that is no label reference stays as it is. -/
theorem resolve_argument (part : Part) (value : UInt64)
    (htakes : Image.Takes set part (Decoded.argument set .nowhere (part, value)) value)
    (arg : Token) (harg : arg.bare = Decoded.argument set .nowhere (part, value)) :
    ∃ resolved, Layout.resolveArg labels arg = .ok resolved ∧
      Image.Takes set part resolved value := by
  have hkind : (Decoded.argument set .nowhere (part, value)).kind ≠ .identifier := by
    cases part with
    | typed cls width => cases cls <;> exact nofun
    | constant | immediate | extra => exact nofun
  rw [← harg] at hkind htakes
  exact ⟨arg, if_neg hkind, takes_of_bare set part arg value htakes⟩

/-- An operand of a listing is replaced by an argument that its slot takes. -/
theorem resolve_operand (hcontext : context.set = set) (mnemonic : String)
    (part : Part) (value : UInt64)
    (htakes : Image.Takes set part (Decoded.argument set .nowhere (part, value)) value)
    (hsmall : value.toNat < 2 ^ 63)
    (hlabels : ∀ address, operand context mnemonic part value = .label address →
      labels.get? (labelName address) = some address)
    (arg : Token) (harg : arg.bare = (operand context mnemonic part value).token set.classOf?) :
    ∃ resolved, Layout.resolveArg labels arg = .ok resolved ∧
      Image.Takes set part resolved value := by
  cases part with
  | constant => cases htakes
  | typed cls width =>
    rw [token_of_typed hcontext mnemonic cls width value htakes] at harg
    exact resolve_argument _ value htakes arg harg
  | extra width => exact resolve_argument _ value htakes arg harg
  | immediate width =>
    rcases immediate_cases context mnemonic value with hnumber | ⟨index, hindex, -, hlabel⟩
    · rw [operand, hnumber] at harg
      exact resolve_argument _ value htakes arg harg
    · -- the label is that of the value itself, which is what the reference comes to
      have hdistance := Flow.toNat_sub_lt_of_cellAt? _ _ _ value index hsmall hindex
      have haddress := (Flow.addressOf_eq_iff_of_cellAt? _ _ _ value index hindex).mpr hdistance
      rw [haddress] at hlabel
      have hvalue := hlabels value hlabel
      rw [operand, hlabel] at harg
      have hkind : arg.kind = .identifier := congrArg Token.kind harg
      have htext : arg.text = labelName value := congrArg Token.text harg
      have hfields : arg.fields = [] := congrArg Token.fields harg
      refine ⟨Token.ofValue value arg.pos, ?_, Token.value_ofValue value arg.pos, htakes.2⟩
      rw [Layout.resolveArg, if_pos hkind, htext, hvalue, hfields]
      rfl

theorem resolve_operands (hcontext : context.set = set) (mnemonic : String)
    (entries : List (Part × UInt64))
    (htakes : ∀ entry ∈ entries,
      Image.Takes set entry.1 (Decoded.argument set .nowhere entry) entry.2)
    (hsmall : ∀ entry ∈ entries, entry.2.toNat < 2 ^ 63)
    (hlabels : ∀ entry ∈ entries, ∀ address,
      operand context mnemonic entry.1 entry.2 = .label address →
        labels.get? (labelName address) = some address)
    (args : List Token) (hargs : args.map Token.bare = entries.map fun entry =>
      (operand context mnemonic entry.1 entry.2).token set.classOf?) :
    ∃ resolved, List.Forall₂ (fun arg value => Layout.resolveArg labels arg = .ok value)
        args resolved ∧
      List.Forall₂ (fun entry arg => Image.Takes set entry.1 arg entry.2) entries resolved := by
  induction entries generalizing args with
  | nil =>
    rw [List.map_nil, List.map_eq_nil_iff] at hargs
    subst hargs
    exact ⟨[], .nil, .nil⟩
  | cons entry entries ih =>
    obtain ⟨arg, args, rfl, harg, hargs⟩ := List.map_eq_cons_iff.mp hargs
    obtain ⟨first, hfirst, hfirst'⟩ := resolve_operand hcontext mnemonic entry.1 entry.2
      (htakes entry List.mem_cons_self) (hsmall entry List.mem_cons_self)
      (hlabels entry List.mem_cons_self) arg harg
    obtain ⟨resolved, hresolved, hresolved'⟩ := ih
      (fun other hother => htakes other (List.mem_cons_of_mem _ hother))
      (fun other hother => hsmall other (List.mem_cons_of_mem _ hother))
      (fun other hother => hlabels other (List.mem_cons_of_mem _ hother)) args hargs
    exact ⟨first :: resolved, .cons hfirst hresolved, .cons hfirst' hresolved'⟩

/-- An instruction with the arguments of a decoded word gives its bytes. -/
theorem statementBytes_of_decode (bytes : List UInt8) (decoded : Decoded)
    (hlength : bytes.length = set.width / 8)
    (hdecode : Decoder.decode set (Word.decode set.width bytes) = some decoded)
    (hdirective : Directive.isDirective decoded.mnemonic = false) (statement : Statement)
    (hkind : statement.kind ≠ .label) (hname : statement.mnemonic = decoded.mnemonic)
    (htakes : List.Forall₂ (fun entry arg => Image.Takes set entry.1 arg entry.2)
      (written decoded) statement.args) :
    Image.statementBytes set statement = .ok bytes := by
  have hlt := Word.toNat_decode_lt set.width bytes set.valid.width_le hlength
  have hword :=
    Image.instructionWord_of_decode set _ decoded hlt hdecode statement hname htakes
  rw [Image.statementBytes_of_instruction set statement hkind (hname ▸ hdirective)]
  refine bind_eq_ok_iff.mpr ⟨_, hword, ?_⟩
  rw [Word.encode_decode set.width bytes set.valid.width_le hlength]
  rfl

/-- A code line gives the bytes that were decoded. -/
theorem emits_code (hcontext : context.set = set) (bytes : List UInt8)
    (decoded : Decoded) (hlength : bytes.length = set.width / 8)
    (hdecode : Decoder.decode set (Word.decode set.width bytes) = some decoded)
    (hdirective : Directive.isDirective decoded.mnemonic = false)
    (hsmall : ∀ entry ∈ written decoded, entry.2.toNat < 2 ^ 63)
    (hlabels : ∀ address, Operand.label address ∈ operands context decoded →
      labels.get? (labelName address) = some address) :
    Emits set.classOf? set labels [.code decoded.mnemonic (operands context decoded)] bytes := by
  obtain ⟨hmem, -, -⟩ := Decoder.decode_eq_some set _ decoded hdecode
  have hlower : Text.lower decoded.mnemonic = decoded.mnemonic :=
    set.valid.mnemonic_lower (decoded.mnemonic, decoded.format) hmem
  have horigin : Directive.isOrigin (Text.lower decoded.mnemonic) = false := by
    rw [hlower]
    exact (Bool.or_eq_false_iff.mp hdirective).2
  have hlabel : Statement.Kind.instruction ≠ .label := by decide
  refine emits_of_retained _ _ bytes rfl ?_ fun statement hbare => ?_
  · rw [Statement.retained_iff]
    exact ⟨hlabel, horigin⟩
  · obtain ⟨hkind, hname, hargs⟩ := instruction_of_bare statement _ _ hbare
    rw [hlower] at hname
    rw [operands, List.map_map] at hargs
    have hwritten := Decoded.takes_written set .nowhere _ decoded hdecode
    rw [List.forall₂_map_right_iff, List.forall₂_same] at hwritten
    obtain ⟨resolved, hresolved, htakes⟩ := resolve_operands hcontext decoded.mnemonic
      (written decoded) hwritten hsmall (fun entry hentry address haddress =>
        hlabels address (haddress ▸ List.mem_map_of_mem hentry)) statement.args hargs
    refine bind_eq_ok_iff.mpr ⟨{ statement with args := resolved },
      (Layout.resolveArgs_eq_ok_iff _ _ _).mpr ⟨resolved, hresolved, rfl⟩, ?_⟩
    exact statementBytes_of_decode bytes decoded hlength hdecode hdirective _
      (hkind ▸ hlabel) hname htakes

end Listing

end WordAsm
