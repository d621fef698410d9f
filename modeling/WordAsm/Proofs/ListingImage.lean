import WordAsm.Proofs.LayoutAgreement
import WordAsm.Proofs.ListingData
import WordAsm.Proofs.LowerCase

/-! The image of a listing. Once its labels are known a line gives the bytes that it was made for: a
line of data those that it lists, whatever the labels are. -/

namespace WordAsm

namespace Image

/-- A data directive gives the bytes of its values. -/
theorem emit_data (set : InstructionSet) (labels : NameMap UInt64) (statement : Statement)
    (slotSize : Nat) (values : List (List UInt64)) (hkind : statement.kind ≠ .label)
    (hslot : Directive.slotSize? statement.mnemonic = some slotSize)
    (hargs : List.Forall₂ (fun arg value => arg.kind ≠ .identifier ∧
      slotValues statement.mnemonic arg = .ok value) statement.args values) :
    emit set labels statement = .ok (values.flatten.flatMap (Word.toBytes slotSize)) := by
  have hresolve : Layout.resolveArgs labels statement = .ok statement := by
    refine (Layout.resolveArgs_eq_ok_iff _ _ _).mpr ⟨statement.args, ?_, rfl⟩
    rw [List.forall₂_same]
    intro arg harg
    obtain ⟨index, hindex⟩ := List.mem_iff_getElem?.mp harg
    obtain ⟨value, -, hidentifier, -⟩ := forall₂_getElem? hargs index arg hindex
    rw [Layout.resolveArg, if_neg hidentifier]
  refine bind_eq_ok_iff.mpr ⟨statement, hresolve, ?_⟩
  rw [statementBytes_of_data set statement slotSize hkind hslot]
  exact (dataBytes_eq_ok_iff ..).mpr ⟨values, hargs.imp fun _ _ h => h.2, rfl⟩

end Image

namespace Listing

variable (lexicon : Lexicon) (set : InstructionSet) (labels : NameMap UInt64)

/-- However their statements are positioned, the lines give the bytes of the image. -/
def Emits (lines : List Line) (image : List UInt8) : Prop :=
  ∀ statements : List Statement, statements.map Statement.bare =
      lines.flatMap (Line.statements lexicon) →
    ∃ blocks, List.Forall₂ (fun statement block => Image.emit set labels statement = .ok block)
      (statements.filter Statement.retained) blocks ∧ blocks.flatten = image

variable {lexicon set labels}

theorem Emits.nil : Emits lexicon set labels [] [] := by
  intro statements h
  rw [List.map_eq_nil_iff.mp h]
  exact ⟨[], .nil, rfl⟩

theorem Emits.append {front rest : List Line} {image later : List UInt8}
    (hfront : Emits lexicon set labels front image) (hrest : Emits lexicon set labels rest later) :
    Emits lexicon set labels (front ++ rest) (image ++ later) := by
  intro statements h
  rw [List.flatMap_append] at h
  obtain ⟨first, last, rfl, hfirst, hlast⟩ := List.map_eq_append_iff.mp h
  obtain ⟨blocks, hblocks, rfl⟩ := hfront first hfirst
  obtain ⟨more, hmore, rfl⟩ := hrest last hlast
  refine ⟨blocks ++ more, ?_, List.flatten_append⟩
  rw [List.filter_append]
  exact List.rel_append hblocks hmore

theorem Emits.of_forall (block : Line → List UInt8) (lines : List Line)
    (h : ∀ line ∈ lines, Emits lexicon set labels [line] (block line)) :
    Emits lexicon set labels lines (lines.flatMap block) := by
  induction lines with
  | nil => exact .nil
  | cons line lines ih =>
    exact .append (h line List.mem_cons_self)
      (ih fun other hother => h other (List.mem_cons_of_mem _ hother))

theorem retained_of_bare (statement body : Statement) (h : statement.bare = body) :
    statement.retained = body.retained :=
  h ▸ rfl

theorem instruction_of_bare (statement : Statement) (mnemonic : String) (args : List Token)
    (h : statement.bare = Line.body?.instruction mnemonic args) :
    statement.kind = .instruction ∧ statement.mnemonic = Text.lower mnemonic ∧
      statement.args.map Token.bare = args := by
  have htext : statement.name.text = mnemonic :=
    congrArg (fun body : Statement => body.name.text) h
  refine ⟨congrArg Statement.kind h, ?_, congrArg Statement.args h⟩
  rw [Statement.mnemonic, htext]

/-- The label of a line takes no place. -/
theorem filter_retained_statements (line : Line) (statements : List Statement)
    (h : statements.map Statement.bare = line.statements lexicon) :
    ∃ rest : List Statement,
      statements.filter Statement.retained = rest.filter Statement.retained ∧
      rest.map Statement.bare = (line.body? lexicon).toList := by
  obtain ⟨front, rest, rfl, hfront, hrest⟩ := List.map_eq_append_iff.mp h
  refine ⟨rest, ?_, hrest⟩
  -- what is in front of the body is the label, and a label is not retained
  have hnone : front.filter Statement.retained = [] := by
    rw [List.filter_eq_nil_iff]
    intro statement hmem
    have hbare := List.mem_map_of_mem (f := Statement.bare) hmem
    rw [hfront] at hbare
    obtain ⟨name, -, hname⟩ := List.mem_map.mp hbare
    rw [retained_of_bare statement _ hname.symm]
    exact Bool.false_ne_true
  rw [List.filter_append, hnone, List.nil_append]

theorem emits_of_retained (line : Line) (body : Statement) (block : List UInt8)
    (hbody : line.body? lexicon = some body) (hretained : body.retained = true)
    (hemit : ∀ statement : Statement, statement.bare = body →
      Image.emit set labels statement = .ok block) : Emits lexicon set labels [line] block := by
  intro statements hstatements
  rw [List.flatMap_singleton] at hstatements
  obtain ⟨rest, hfilter, hrest⟩ := filter_retained_statements line statements hstatements
  rw [hbody] at hrest
  obtain ⟨statement, rfl, hbare⟩ := List.map_eq_singleton_iff.mp hrest
  refine ⟨[block], ?_, List.append_nil block⟩
  rw [hfilter, List.filter_singleton, retained_of_bare statement body hbare, hretained]
  exact .cons (hemit statement hbare) .nil

theorem emits_nothing (line : Line)
    (h : ∀ body ∈ line.body? lexicon, body.retained = false) :
    Emits lexicon set labels [line] [] := by
  intro statements hstatements
  rw [List.flatMap_singleton] at hstatements
  obtain ⟨rest, hfilter, hrest⟩ := filter_retained_statements line statements hstatements
  refine ⟨[], ?_, rfl⟩
  have hnone : rest.filter Statement.retained = [] := by
    rw [List.filter_eq_nil_iff]
    intro statement hmem
    have hbare := List.mem_map_of_mem (f := Statement.bare) hmem
    rw [hrest] at hbare
    rw [retained_of_bare statement _ rfl, h _ (Option.mem_toList.mp hbare)]
    exact Bool.false_ne_true
  rw [hfilter, hnone]
  exact .nil

/-- The argument fills data slots with the values. -/
def Fills (arg : Token) (values : List UInt64) : Prop :=
  (arg.kind = .number ∧ ∃ value, arg.value = .ok value ∧ values = [value]) ∨
    (arg.kind = .string ∧ values = arg.text.toList.map fun c => UInt64.ofNat c.toNat)

theorem fills_hex (width n : Nat) (hn : n < Word.modulus) :
    Fills (.ofHex width n) [UInt64.ofNat n] :=
  .inl ⟨rfl, _, Token.value_ofHex width n hn, rfl⟩

/-- A listed data directive gives the bytes of what its arguments hold. -/
theorem emits_of_fills (line : Line) (mnemonic : String) (args : List Token) (slotSize : Nat)
    (values : List (List UInt64)) (block : List UInt8)
    (hbody : line.body? lexicon = some (Line.body?.instruction mnemonic args))
    (hslot : Directive.slotSize? (Text.lower mnemonic) = some slotSize)
    (hargs : List.Forall₂ Fills args values)
    (hblock : values.flatten.flatMap (Word.toBytes slotSize) = block) :
    Emits lexicon set labels [line] block := by
  subst hblock
  have horigin := Directive.isOrigin_of_slotSize? _ slotSize hslot
  refine emits_of_retained line _ _ hbody ?_ fun statement hbare => ?_
  · rw [Statement.retained_iff]
    exact ⟨nofun, horigin⟩
  · obtain ⟨hkind, hname, hstatement⟩ := instruction_of_bare statement mnemonic args hbare
    rw [← hstatement, List.forall₂_map_left_iff] at hargs
    refine Image.emit_data set labels statement slotSize values (by rw [hkind]; exact nofun)
      (by rw [hname]; exact hslot) (hargs.imp fun arg value hfills => ⟨?_, ?_⟩)
    · intro hidentifier
      rcases hfills with ⟨hnumber, -⟩ | ⟨hstring, -⟩
      · exact absurd (hidentifier.symm.trans hnumber) nofun
      · exact absurd (hidentifier.symm.trans hstring) nofun
    · exact (Image.slotValues_eq_ok_iff _ _ _).mpr hfills

theorem slotSize?_dw : Directive.slotSize? (Text.lower "dw") = some 2 := by decide +kernel

theorem slotSize?_db : Directive.slotSize? (Text.lower "db") = some 1 := by decide +kernel

/-- The code of a character in a string is its word. -/
theorem toNat_charOf (word : UInt16) (h : isCharWord word = true) :
    UInt64.ofNat (charOf word).toNat = word.toUInt64 := by
  rw [isCharWord, Bool.and_eq_true, decide_eq_true_eq, decide_eq_true_eq] at h
  have hle : word.toNat ≤ 0x7e := UInt16.le_iff_toNat_le.mp h.2
  have hvalid : (word.toNat % 256).isValidChar := .inl (by omega)
  rw [charOf, Text.toNat_ofNat _ hvalid, Nat.mod_eq_of_lt (by omega)]
  exact UInt64.ofNat_uInt16ToNat word

theorem flatten_singletons (words : List UInt16) :
    (words.map fun word => [word.toUInt64]).flatten.flatMap (Word.toBytes 2) =
      words.flatMap wordBytes := by
  rw [← List.flatMap_def, ← List.map_eq_flatMap, List.flatMap_map]
  rfl

variable (lexicon) in
/-- The line is a directive for slots of some size, and what its arguments hold is its data. -/
def Line.Holds (line : Line) (mnemonic : String) (slotSize : Nat) : Prop :=
  ∃ args values, line.body? lexicon = some (Line.body?.instruction mnemonic args) ∧
    List.Forall₂ Fills args values ∧ values.flatten.flatMap (Word.toBytes slotSize) = line.data

theorem holds_data (line : Line) (h : line.IsData) : line.Holds lexicon "dw" 2 := by
  cases h with
  | words values =>
    refine ⟨_, _, rfl, ?_, flatten_singletons values⟩
    rw [List.forall₂_map_left_iff, List.forall₂_map_right_iff, List.forall₂_same]
    intro value _
    rw [← UInt64.ofNat_uInt16ToNat value]
    exact fills_hex 4 value.toNat (value.toNat_lt.trans (by decide))
  | string index text terminated htext =>
    have hfirst : Fills (.plain .string (String.ofList (text.map charOf)) .nowhere)
        (text.map UInt16.toUInt64) := by
      refine .inr ⟨rfl, ?_⟩
      change _ = (String.ofList (text.map charOf)).toList.map _
      rw [String.toList_ofList, List.map_map]
      exact List.map_congr_left fun word hword => (toNat_charOf word (htext word hword)).symm
    have hbytes : (text.map UInt16.toUInt64).flatMap (Word.toBytes 2) = text.flatMap wordBytes := by
      rw [List.flatMap_map]
      rfl
    cases terminated with
    | false =>
      refine ⟨_, _, rfl, .cons hfirst .nil, ?_⟩
      rw [List.flatten_singleton, hbytes]
      exact (List.append_nil _).symm
    | true =>
      have hzero : Fills (.ofValue 0 .nowhere) [0] :=
        .inl ⟨rfl, 0, Token.value_ofValue 0 .nowhere, rfl⟩
      refine ⟨_, _, rfl, .cons hfirst (.cons hzero .nil), ?_⟩
      rw [List.flatten_cons, List.flatten_singleton, List.flatMap_append, hbytes]
      rfl

theorem holds_byte (value : UInt8) : (Line.byte value).Holds lexicon "db" 1 := by
  refine ⟨_, [[UInt64.ofNat value.toNat]], rfl, ?_, ?_⟩
  · exact .cons (fills_hex 2 value.toNat (value.toNat_lt.trans (by decide))) .nil
  · change Word.toBytes 1 (UInt64.ofNat value.toNat) = [value]
    rw [UInt64.ofNat_uInt8ToNat]
    exact congrArg (fun byte => [byte]) (UInt8.toUInt8_toUInt64 value)

/-- A line of data gives the bytes that it lists. -/
theorem emits_data (line : Line) (h : line.IsData) :
    Emits lexicon set labels [line] line.data := by
  have hholds : line.Holds lexicon "dw" 2 := holds_data line h
  obtain ⟨args, values, hbody, hargs, hblock⟩ := hholds
  exact emits_of_fills line "dw" args 2 values _ hbody slotSize?_dw hargs hblock

theorem emits_byte (value : UInt8) : Emits lexicon set labels [.byte value] [value] := by
  have hholds : (Line.byte value).Holds lexicon "db" 1 := holds_byte value
  obtain ⟨args, values, hbody, hargs, hblock⟩ := hholds
  exact emits_of_fills _ "db" args 1 values _ hbody slotSize?_db hargs hblock

end Listing

end WordAsm
