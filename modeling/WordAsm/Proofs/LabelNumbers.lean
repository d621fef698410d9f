import WordAsm.Assembler
import WordAsm.Proofs.BuiltinSet
import WordAsm.Proofs.Expansion
import WordAsm.Proofs.LayoutAgreement
import WordAsm.Proofs.Numerals

/-! Labels and numbers. A reference to a label may be replaced by the number that it will stand for,
before pseudo-instructions are expanded: a field derived from the number at once is what the
selections of the reference come to once its address is known, and nothing moves, since both take
one slot. -/

namespace WordAsm

/-- The arguments are the same, or one refers to a label and the other is the number of it. -/
def Token.Numbered (labels : NameMap UInt64) (arg other : Token) : Prop :=
  other = arg ∨ arg.kind = .identifier ∧ ∃ value, labels.get? arg.text = some value ∧
    other = Token.ofValue (BitField.applyAll arg.fields value) arg.pos

theorem BitField.applyAll_concat (fields : List BitField) (field : BitField) (value : UInt64) :
    applyAll (fields ++ [field]) value = field.apply (applyAll fields value) := by
  rw [applyAll, List.foldl_append, List.foldl_cons, List.foldl_nil]
  rfl

variable {labels : NameMap UInt64}

/-- A field of the number is the number of the field. -/
theorem derive_numbered (name : String) (field : BitField) (actual other derived : Token)
    (h : actual.Numbered labels other) (hderive : Pseudo.derive name field actual = .ok derived) :
    ∃ derived', Pseudo.derive name field other = .ok derived' ∧
      derived.Numbered labels derived' := by
  rcases h with rfl | ⟨hkind, value, hvalue, rfl⟩
  · exact ⟨derived, hderive, .inl rfl⟩
  · -- the reference remembers one selection more, the number has it applied already
    rw [Pseudo.derive, hkind] at hderive
    cases hderive
    refine ⟨_, ?_, .inr ⟨rfl, value, hvalue, rfl⟩⟩
    rw [Pseudo.derive, Token.value_ofValue, BitField.applyAll_concat]
    rfl

theorem keeps_numbered (labels : NameMap UInt64) : Pseudo.Keeps (Token.Numbered labels) :=
  ⟨fun _ => .inl rfl, derive_numbered⟩

theorem slots_numbered (arg other : Token) (h : arg.Numbered labels other) :
    Directive.slots other = Directive.slots arg := by
  rcases h with rfl | ⟨hkind, value, -, rfl⟩
  · rfl
  · rw [Directive.slots, Directive.slots, hkind]
    rfl

theorem resolveArg_numbered (arg other resolved : Token) (h : arg.Numbered labels other)
    (hresolve : Layout.resolveArg labels arg = .ok resolved) :
    Layout.resolveArg labels other = .ok resolved := by
  rcases h with rfl | ⟨hkind, value, hvalue, rfl⟩
  · exact hresolve
  · rw [Layout.resolveArg, if_pos hkind, hvalue] at hresolve
    cases hresolve
    rfl

theorem sizeOf_numbered (width : Nat) (given other : Statement)
    (h : given.ArgsRelated (Token.Numbered labels) other) :
    Layout.sizeOf width other = Layout.sizeOf width given := by
  obtain ⟨args, hargs, rfl⟩ := h
  have hsize (slotSize : Nat) :
      Directive.dataSize slotSize args = Directive.dataSize slotSize given.args :=
    Directive.dataSize_congr slotSize _ _ (hargs.imp slots_numbered)
  simp only [Layout.sizeOf, Statement.mnemonic, hsize]

/-- An origin is never a label, so it stays as it is. -/
theorem originOf_numbered (given other : Statement) (origin : UInt64)
    (h : given.ArgsRelated (Token.Numbered labels) other)
    (horigin : Layout.originOf given = .ok origin) : Layout.originOf other = .ok origin := by
  obtain ⟨args, hargs, rfl⟩ := h
  obtain ⟨arg, hgiven, hkind⟩ := Layout.exists_of_originOf given origin horigin
  rw [hgiven] at hargs
  cases hargs with
  | cons hfirst hrest =>
    cases hrest
    rcases hfirst with rfl | ⟨hidentifier, -⟩
    · rwa [← hgiven]
    · rw [hkind] at hidentifier
      cases hidentifier

/-- Programs whose references are replaced are placed alike. -/
theorem places_numbered {width : Nat} {strict : Bool} {address last : UInt64}
    {known sites : NameMap LabelSite} {given placed : List Statement}
    (h : Layout.Places width strict address known given placed last sites) (other : List Statement)
    (hother : List.Forall₂ (Statement.ArgsRelated (Token.Numbered labels)) given other) :
    ∃ placed', Layout.Places width strict address known other placed' last sites ∧
      List.Forall₂ (Statement.ArgsRelated (Token.Numbered labels)) placed placed' := by
  induction h generalizing other with
  | done address known =>
    cases hother
    exact ⟨[], .done address known, .nil⟩
  | label hkind hnew hrest ih =>
    cases hother with
    | cons hfirst hothers =>
      obtain ⟨placed', hplaces, hrelated⟩ := ih _ hothers
      obtain ⟨args, -, rfl⟩ := hfirst
      exact ⟨placed', .label hkind hnew hplaces, hrelated⟩
  | origin horigin hvalue hrest ih =>
    cases hother with
    | cons hfirst hothers =>
      obtain ⟨placed', hplaces, hrelated⟩ := ih _ hothers
      have hvalue' := originOf_numbered _ _ _ hfirst hvalue
      obtain ⟨args, -, rfl⟩ := hfirst
      exact ⟨placed', .origin horigin hvalue' hplaces, hrelated⟩
  | @retained address last known sites statement rest placed hretained hrest ih =>
    cases hother with
    | cons hfirst hothers =>
      -- the other statement takes as much room, so what follows it stands at the same address
      have hsize := sizeOf_numbered width _ _ hfirst
      rw [← hsize] at ih
      obtain ⟨placed', hplaces, hrelated⟩ := ih _ hothers
      obtain ⟨args, hargs, rfl⟩ := hfirst
      refine ⟨_, .retained hretained hplaces, .cons ⟨args, hargs, ?_⟩ hrelated⟩
      rw [Layout.placedAt, hsize]
      rfl

/-- Once its references are resolved nothing distinguishes the other statement. -/
theorem resolveArgs_numbered (given other resolved : Statement)
    (h : given.ArgsRelated (Token.Numbered labels) other)
    (hresolve : Layout.resolveArgs labels given = .ok resolved) :
    Layout.resolveArgs labels other = .ok resolved := by
  obtain ⟨args, hargs, rfl⟩ := h
  obtain ⟨values, hvalues, hresolve⟩ := bind_eq_ok_iff.mp hresolve
  cases hresolve
  have hvalues' := mapM_eq_of_related _ _ resolveArg_numbered hargs values hvalues
  exact bind_eq_ok_iff.mpr ⟨values, hvalues', rfl⟩

/-- A program keeps its labels and its image when references to labels are replaced by the numbers
that they stand for. -/
theorem label_references_may_be_numbers (asm : Assembler)
    (statements expanded : List Statement) (layout : Layout) (code : List UInt8)
    (hexpand : asm.pseudos.expand statements = .ok expanded)
    (hlayout : asm.layout expanded = .ok layout)
    (hcode : Image.generate asm.set layout.statements = .ok code) (replaced : List Statement)
    (hreplaced : List.Forall₂ (Statement.ArgsRelated (Token.Numbered layout.labels))
      statements replaced) :
    ∃ expanded' layout', asm.pseudos.expand replaced = .ok expanded' ∧
      asm.layout expanded' = .ok layout' ∧ layout'.labels = layout.labels ∧
      Image.generate asm.set layout'.statements = .ok code := by
  obtain ⟨expanded', hexpand', hrelated⟩ := PseudoTable.expandIn_related
    (keeps_numbered layout.labels) asm.pseudos _ expanded hreplaced hexpand
  -- the layout itself is the same: its statements have their references resolved
  refine ⟨expanded', layout, hexpand', ?_, rfl, hcode⟩
  obtain ⟨placed, last, sites, hplaces, hlabels, hkept⟩ :=
    (Layout.resolve_eq_ok_iff _ _).mp hlayout
  obtain ⟨placed', hplaces', hrelated'⟩ := places_numbered hplaces expanded' hrelated
  refine (Layout.resolve_eq_ok_iff _ _).mpr ⟨placed', last, sites, hplaces', hlabels, ?_⟩
  rw [← mapM_eq_ok_iff] at hkept ⊢
  exact mapM_eq_of_related _ _ resolveArgs_numbered hrelated' layout.statements hkept

/-- Loads the address of a label, which both words of the expansion take a field of. -/
def loadAddress (address : Token) : List Statement :=
  let name (text : String) : Token := .plain .identifier text (.start "")
  [.unplaced .instruction (name "org") [.ofValue 0x1234 (.start "")],
    .unplaced .label (name "here") [],
    .unplaced .instruction (name "ldi") [.plain .register "r1" (.start ""), address]]

theorem loadAddress_numbered :
    ∃ asm expanded layout, Assembler.ofSet Zirc16.table true = .ok asm ∧
      asm.pseudos.expand (loadAddress (.ofValue 0x1234 (.start ""))) = .ok expanded ∧
      asm.layout expanded = .ok layout ∧ layout.labels = [("here", 0x1234)] ∧
      Image.generate asm.set layout.statements = .ok [0x50, 0x90, 0x48, 0xe8] := by
  have hrun : (do
      let asm ← Assembler.ofSet Zirc16.table true
      let expanded ← asm.pseudos.expand (loadAddress (.plain .identifier "here" (.start "")))
      let layout ← asm.layout expanded
      let code ← Image.generate asm.set layout.statements
      return (layout.labels, code)) = .ok ([("here", 0x1234)], [0x50, 0x90, 0x48, 0xe8]) := by
    decide +kernel
  obtain ⟨asm, hasm, hrun⟩ := bind_eq_ok_iff.mp hrun
  obtain ⟨expanded, hexpand, hrun⟩ := bind_eq_ok_iff.mp hrun
  obtain ⟨layout, hlayout, hrun⟩ := bind_eq_ok_iff.mp hrun
  obtain ⟨code, hcode, hrun⟩ := bind_eq_ok_iff.mp hrun
  obtain ⟨hlabels, rfl⟩ := Prod.mk.inj (Except.ok.inj hrun)
  have hreplaced : List.Forall₂ (Statement.ArgsRelated (Token.Numbered layout.labels))
      (loadAddress (.plain .identifier "here" (.start "")))
      (loadAddress (.ofValue 0x1234 (.start ""))) := by
    have hsame (arg : Token) : arg.Numbered layout.labels arg := .inl rfl
    refine .cons ⟨_, .cons (hsame _) .nil, rfl⟩ (.cons ⟨_, .nil, rfl⟩ (.cons ?_ .nil))
    refine ⟨_, .cons (hsame _) (.cons (.inr ⟨rfl, 0x1234, ?_, rfl⟩) .nil), rfl⟩
    rw [hlabels]
    rfl
  obtain ⟨expanded', layout', hexpand', hlayout', hlabels', hcode'⟩ :=
    label_references_may_be_numbers asm _ expanded layout _ hexpand hlayout hcode _ hreplaced
  exact ⟨asm, expanded', layout', hasm, hexpand', hlayout', hlabels'.trans hlabels, hcode'⟩

end WordAsm
