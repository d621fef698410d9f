import Mathlib.Logic.Equiv.Basic
import WordAsm.Proofs.BuiltinSet
import WordAsm.Proofs.LayoutAgreement
import WordAsm.Proofs.SoundExpansion

/-! Renaming of labels. Formals and fields of a template are names of the template only: the labels
of a program may be called like them, or like anything else, and an injective renaming of the labels
changes neither the addresses nor the image. Only what templates refer to by names of their own has
to keep its name. -/

namespace WordAsm

variable {s : String → String}

/-- The token under another name, if it is an identifier. -/
def Token.rename (s : String → String) (token : Token) : Token :=
  if token.kind = .identifier then { token with text := s token.text } else token

/-- The statement with other names for labels: for the one that it defines, or for those that it
refers to. -/
def Statement.rename (s : String → String) (statement : Statement) : Statement :=
  if statement.kind = .label then
    { statement with name := { statement.name with text := s statement.name.text } }
  else { statement with args := statement.args.map (Token.rename s) }

/-- The map with other names for its entries. -/
def NameMap.rename {α : Type} (s : String → String) (map : NameMap α) : NameMap α :=
  map.map fun entry => (s entry.1, entry.2)

namespace Token

theorem rename_of_ne {token : Token} (h : token.kind ≠ .identifier) : token.rename s = token :=
  if_neg h

theorem rename_of_eq {token : Token} (h : token.kind = .identifier) :
    token.rename s = { token with text := s token.text } :=
  if_pos h

theorem slots_rename (token : Token) :
    Directive.slots (token.rename s) = Directive.slots token := by
  by_cases h : token.kind = .identifier
  · simp [rename_of_eq h, Directive.slots, h]
  · rw [rename_of_ne h]

end Token

namespace NameMap

variable {α : Type}

theorem get?_rename (hs : Function.Injective s) (map : NameMap α) (name : String) :
    (map.rename s).get? (s name) = map.get? name := by
  induction map with
  | nil => rfl
  | cons first rest ih =>
    change get? ((s first.1, first.2) :: rename s rest) (s name) = _
    simp only [get?_cons, hs.eq_iff, ih]

theorem rename_put (hs : Function.Injective s) (map : NameMap α) (name : String) (value : α) :
    rename s (put name value map) = put (s name) value (map.rename s) := by
  induction map with
  | nil => rfl
  | cons first rest ih =>
    change _ = put (s name) value ((s first.1, first.2) :: rename s rest)
    by_cases h : first.1 = name
    · rw [put, put, if_pos h, if_pos (congrArg s h)]
      rfl
    · rw [put, put, if_neg h, if_neg (hs.ne h), ← ih]
      rfl

end NameMap

theorem forall₂_eq_iff {α β : Type} (f : α → β) (xs : List α) (ys : List β) :
    List.Forall₂ (fun x y => f x = y) xs ys ↔ xs.map f = ys := by
  rw [← List.forall₂_map_left_iff, List.forall₂_eq_eq_eq]

namespace Statement

theorem rename_of_label {statement : Statement} (h : statement.kind = .label) :
    statement.rename s =
      { statement with name := { statement.name with text := s statement.name.text } } :=
  if_pos h

theorem rename_of_ne {statement : Statement} (h : statement.kind ≠ .label) :
    statement.rename s = { statement with args := statement.args.map (Token.rename s) } :=
  if_neg h

@[simp]
theorem kind_rename (statement : Statement) : (statement.rename s).kind = statement.kind := by
  rw [rename]
  split
  · rfl
  · rfl

/-- Instructions keep their names. -/
theorem mnemonic_rename {statement : Statement} (h : statement.kind ≠ .label) :
    (statement.rename s).mnemonic = statement.mnemonic := by
  rw [rename_of_ne h]
  rfl

end Statement

/-- Deriving a field from a label does not look at its name. -/
theorem derive_rename (name : String) (field : BitField) (actual derived : Token)
    (h : Pseudo.derive name field actual = .ok derived) :
    Pseudo.derive name field (actual.rename s) = .ok (derived.rename s) := by
  by_cases hkind : actual.kind = .identifier
  · rw [Pseudo.derive, hkind] at h
    cases h
    rw [Token.rename_of_eq hkind, Pseudo.derive]
    simp only [hkind]
    rw [Token.rename_of_eq rfl]
  · -- what is derived from anything else is a number
    have hderived : derived.kind ≠ .identifier := by
      rw [Pseudo.derive] at h
      split at h
      · split at h
        · cases h
          change Token.Kind.number ≠ .identifier
          decide
        · cases h
      · exact absurd ‹_› hkind
      · cases h
    rw [Token.rename_of_ne hkind, Token.rename_of_ne hderived, h]

/-- The names that templates have of their own are left alone. -/
def PseudoTable.Fixes (table : PseudoTable) (s : String → String) : Prop :=
  ∀ pseudo ∈ table, ∀ statement ∈ pseudo.body, ∀ arg ∈ statement.args, arg.kind = .identifier →
    arg.text ∉ pseudo.params → arg.text ∉ pseudo.fields.names → s arg.text = arg.text

instance (table : PseudoTable) (s : String → String) : Decidable (table.Fixes s) :=
  inferInstanceAs (Decidable (∀ pseudo ∈ table, ∀ statement ∈ pseudo.body, ∀ arg ∈ statement.args,
    arg.kind = .identifier → arg.text ∉ pseudo.params → arg.text ∉ pseudo.fields.names →
      s arg.text = arg.text))

/-- Expansion carries a renaming over. -/
theorem PseudoTable.simulates_rename (table : PseudoTable) (htable : table.Compiled)
    (hfixes : table.Fixes s) :
    table.Simulates (fun token other => token.rename s = other)
      fun given other => given.rename s = other where
  derive := by
    intro name field actual other derived hactual h
    subst hactual
    exact ⟨derived.rename s, derive_rename name field actual derived h, rfl⟩
  free := by
    intro pseudo hpseudo statement hstatement arg harg hfree pos
    by_cases hkind : arg.kind = .identifier
    · have hfixed := hfixes pseudo hpseudo statement hstatement arg harg hkind
        (hfree hkind).1 (hfree hkind).2
      calc Token.rename s { arg with pos }
        _ = { arg with text := s arg.text, pos } := Token.rename_of_eq hkind
        _ = { arg with pos } := by rw [hfixed]
    · exact Token.rename_of_ne hkind
  absent := by
    intro pseudo hpseudo entry hentry hparam
    exact absurd ((htable pseudo hpseudo).fields entry hentry) hparam
  expands := by
    intro given other hother
    subst hother
    by_cases hkind : given.kind = .label
    · simp [expands, hkind]
    · simp [expands, Statement.mnemonic_rename hkind]
  call := by
    intro given other hother h
    subst hother
    have hkind : given.kind ≠ .label := by
      intro hlabel
      simp [expands, hlabel] at h
    exact ⟨_, (forall₂_eq_iff _ _ _).mpr rfl, Statement.rename_of_ne hkind⟩
  instruction := by
    intro given other hkind hother
    obtain ⟨args, hargs, hother⟩ := hother
    rw [forall₂_eq_iff] at hargs
    rw [hother, ← hargs]
    exact Statement.rename_of_ne (by rw [hkind]; exact nofun)

namespace Layout

variable {width : Nat} {strict : Bool}

theorem sizeOf_rename {statement : Statement} (h : statement.kind ≠ .label) :
    sizeOf width (statement.rename s) = sizeOf width statement := by
  have hsize (slotSize : Nat) : Directive.dataSize slotSize (statement.args.map (Token.rename s)) =
      Directive.dataSize slotSize statement.args := by
    apply Directive.dataSize_congr
    rw [List.forall₂_map_right_iff, List.forall₂_same]
    intro arg _
    exact arg.slots_rename
  rw [Statement.rename_of_ne h]
  simp only [sizeOf, Statement.mnemonic, hsize]

/-- An origin is a number, so it has no name to change. -/
theorem originOf_rename {statement : Statement} (h : statement.kind ≠ .label) (origin : UInt64)
    (horigin : originOf statement = .ok origin) : originOf (statement.rename s) = .ok origin := by
  obtain ⟨arg, hargs, hkind⟩ := exists_of_originOf statement origin horigin
  have harg : arg.rename s = arg := by
    apply Token.rename_of_ne
    rw [hkind]
    exact nofun
  have hsame : statement.rename s = statement := by
    rw [Statement.rename_of_ne h, hargs, List.map_singleton, harg, ← hargs]
  rw [hsame, horigin]

theorem setsOrigin_rename (statement : Statement) :
    (statement.rename s).setsOrigin = statement.setsOrigin := by
  by_cases h : statement.kind = .label
  · simp [Statement.setsOrigin, h]
  · simp [Statement.setsOrigin, Statement.mnemonic_rename h]

theorem retained_rename (statement : Statement) :
    (statement.rename s).retained = statement.retained := by
  by_cases h : statement.kind = .label
  · simp [Statement.retained, h]
  · simp [Statement.retained, Statement.mnemonic_rename h]

theorem placedAt_rename {statement : Statement} (h : statement.kind ≠ .label) (address : UInt64) :
    placedAt width address (statement.rename s) = (placedAt width address statement).rename s := by
  have hplaced : (placedAt width address statement).kind ≠ .label := h
  rw [placedAt, sizeOf_rename h, Statement.rename_of_ne h, Statement.rename_of_ne hplaced]
  rfl

/-- A program is placed in the same way under other names. -/
theorem Places.rename (hs : Function.Injective s) {address last : UInt64}
    {labels sites : NameMap LabelSite} {statements placed : List Statement}
    (h : Places width strict address labels statements placed last sites) :
    Places width strict address (labels.rename s) (statements.map (Statement.rename s))
      (placed.map (Statement.rename s)) last (sites.rename s) := by
  induction h with
  | done address labels => exact .done address _
  | @label address last labels sites statement rest placed hkind hnew hrest ih =>
    rw [NameMap.rename_put hs] at ih
    have hname : (statement.rename s).name =
        { statement.name with text := s statement.name.text } := by
      rw [Statement.rename_of_label hkind]
    refine .label (statement.kind_rename.trans hkind) ?_ ?_
    · intro hstrict
      rw [hname]
      exact (NameMap.get?_rename hs labels _).trans (hnew hstrict)
    · rw [hname]
      exact ih
  | origin horigin hvalue hrest ih =>
    have hkind := ((Statement.setsOrigin_iff _).mp horigin).1
    exact .origin ((setsOrigin_rename _).trans horigin) (originOf_rename hkind _ hvalue) ih
  | retained hretained hrest ih =>
    have hkind := ((Statement.retained_iff _).mp hretained).1
    rw [← sizeOf_rename hkind] at ih
    rw [List.map_cons, List.map_cons, ← placedAt_rename hkind]
    exact .retained ((retained_rename _).trans hretained) ih

/-- A reference under its new name finds the address of the label under its new name. -/
theorem resolveArg_rename (hs : Function.Injective s) (labels : NameMap UInt64)
    (arg resolved : Token) (h : resolveArg labels arg = .ok resolved) :
    resolveArg (labels.rename s) (arg.rename s) = .ok resolved := by
  by_cases hkind : arg.kind = .identifier
  · rw [resolveArg, if_pos hkind] at h
    rw [Token.rename_of_eq hkind, resolveArg, if_pos hkind, NameMap.get?_rename hs]
    split at h
    · exact h
    · cases h
  · rw [resolveArg, if_neg hkind] at h
    rw [Token.rename_of_ne hkind, resolveArg, if_neg hkind]
    exact h

/-- Once its references are resolved nothing is left of the names in a statement. -/
theorem resolveArgs_rename (hs : Function.Injective s) (labels : NameMap UInt64)
    (statement resolved : Statement) (hkind : statement.kind ≠ .label)
    (h : resolveArgs labels statement = .ok resolved) :
    resolveArgs (labels.rename s) (statement.rename s) = .ok resolved := by
  obtain ⟨args, hargs, h⟩ := bind_eq_ok_iff.mp h
  cases h
  rw [Statement.rename_of_ne hkind]
  refine bind_eq_ok_iff.mpr ⟨args, ?_, rfl⟩
  apply mapM_eq_of_related (resolveArg labels) (resolveArg (labels.rename s)) _
    ((forall₂_eq_iff (Token.rename s) _ _).mpr rfl) args hargs
  intro arg other resolved hother hresolved
  subst hother
  exact resolveArg_rename hs labels arg resolved hresolved

theorem Places.kind_of_placed {address last : UInt64} {labels sites : NameMap LabelSite}
    {statements placed : List Statement}
    (h : Places width strict address labels statements placed last sites) :
    ∀ statement ∈ placed, statement.kind ≠ .label := by
  induction h with
  | done address labels => exact List.forall_mem_nil _
  | label hkind hnew hrest ih => exact ih
  | origin horigin hvalue hrest ih => exact ih
  | retained hretained hrest ih =>
    exact List.forall_mem_cons.mpr ⟨((Statement.retained_iff _).mp hretained).1, ih⟩

theorem rename_addresses (sites : NameMap LabelSite) :
    (addresses sites).rename s = addresses (sites.rename s) := by
  rw [addresses, addresses, NameMap.rename, NameMap.rename, List.map_map, List.map_map]
  rfl

/-- The layout of a program under other names has other names for its labels only. -/
theorem resolve_rename (hs : Function.Injective s) (statements : List Statement) (layout : Layout)
    (h : resolve width strict statements = .ok layout) :
    resolve width strict (statements.map (Statement.rename s)) =
      .ok ⟨layout.statements, layout.labels.rename s⟩ := by
  obtain ⟨placed, last, sites, hplaces, hlabels, hkept⟩ := (resolve_eq_ok_iff _ _).mp h
  refine (resolve_eq_ok_iff _ _).mpr
    ⟨placed.map (Statement.rename s), last, sites.rename s, hplaces.rename hs, ?_, ?_⟩
  · change layout.labels.rename s = _
    rw [hlabels, rename_addresses]
  · rw [List.forall₂_map_left_iff]
    have hboth := (List.forall₂_and_left placed layout.statements).mpr
      ⟨hplaces.kind_of_placed, hkept⟩
    exact hboth.imp fun statement resolved h =>
      resolveArgs_rename hs layout.labels statement resolved h.1 h.2

end Layout

/-- A program under other names for its labels has the same image, and the same addresses under the
other names. The names may be those of formals and fields, since only the names that templates refer
to on their own account have to stay. -/
theorem labels_may_be_renamed (set : InstructionSet) (strict : Bool) (asm : Assembler)
    (hasm : Assembler.ofSet set strict = .ok asm) (s : String → String) (hs : Function.Injective s)
    (hfixes : asm.pseudos.Fixes s) (statements expanded : List Statement) (layout : Layout)
    (code : List UInt8) (hexpand : asm.pseudos.expand statements = .ok expanded)
    (hlayout : asm.layout expanded = .ok layout)
    (hcode : Image.generate asm.set layout.statements = .ok code) :
    ∃ expanded' layout', asm.pseudos.expand (statements.map (Statement.rename s)) = .ok expanded' ∧
      asm.layout expanded' = .ok layout' ∧ layout'.labels = layout.labels.rename s ∧
      Image.generate asm.set layout'.statements = .ok code := by
  obtain ⟨-, hcompiled⟩ := Assembler.of_ofSet set strict asm hasm
  have hsim := asm.pseudos.simulates_rename hcompiled hfixes
  obtain ⟨expanded', hexpand', hrenamed⟩ := asm.pseudos.expandIn_simulates hsim
    PseudoTable.maxRounds expanded
    ((forall₂_eq_iff (Statement.rename s) statements _).mpr rfl) hexpand
  rw [forall₂_eq_iff] at hrenamed
  subst hrenamed
  exact ⟨_, _, hexpand', Layout.resolve_rename hs expanded layout hlayout, rfl, hcode⟩

/-- Loads the address of the label `last` and jumps back to the label `first`. -/
def loadAndJump (first last : String) : List Statement :=
  let name (text : String) : Token := .plain .identifier text (.start "")
  [.unplaced .label (name first) [],
    .unplaced .instruction (name "ldi") [.plain .register "r1" (.start ""), name last],
    .unplaced .label (name last) [],
    .unplaced .instruction (name "jmp") [name first]]

/-- The labels may be called like the formal of the jump and like a field of the load. -/
theorem loadAndJump_renamed :
    ∃ asm expanded layout, Assembler.ofSet Zirc16.table true = .ok asm ∧
      asm.pseudos.expand (loadAndJump "addr" "lo") = .ok expanded ∧
      asm.layout expanded = .ok layout ∧ layout.labels = [("addr", 0), ("lo", 2)] ∧
      Image.generate asm.set layout.statements = .ok [0x50, 0x00, 0x48, 0x84, 0x78, 0x00] := by
  let s (name : String) : String := Equiv.swap "first" "addr" (Equiv.swap "last" "lo" name)
  have hs : Function.Injective s := (Equiv.injective _).comp (Equiv.injective _)
  have hrenamed : (loadAndJump "first" "last").map (Statement.rename s) =
      loadAndJump "addr" "lo" := by
    decide +kernel
  obtain ⟨asm, hasm, hcheck⟩ := exists_ok_of_any (Assembler.ofSet Zirc16.table true)
    (fun asm => asm.pseudos.Fixes s ∧ (do
      let expanded ← asm.pseudos.expand (loadAndJump "first" "last")
      let layout ← asm.layout expanded
      let code ← Image.generate asm.set layout.statements
      return (layout.labels, code)) =
        .ok ([("first", 0), ("last", 2)], [0x50, 0x00, 0x48, 0x84, 0x78, 0x00]))
    (by decide +kernel)
  obtain ⟨hfixes, hrun⟩ := of_decide_eq_true hcheck
  obtain ⟨expanded, hexpand, hrun⟩ := bind_eq_ok_iff.mp hrun
  obtain ⟨layout, hlayout, hrun⟩ := bind_eq_ok_iff.mp hrun
  obtain ⟨code, hcode, hrun⟩ := bind_eq_ok_iff.mp hrun
  obtain ⟨hlabels, rfl⟩ := Prod.mk.inj (Except.ok.inj hrun)
  obtain ⟨expanded', layout', hexpand', hlayout', hlabels', hcode'⟩ :=
    labels_may_be_renamed Zirc16.table true asm hasm s hs hfixes _ expanded layout _ hexpand
      hlayout hcode
  rw [hrenamed] at hexpand'
  refine ⟨asm, expanded', layout', hasm, hexpand', hlayout', ?_, hcode'⟩
  rw [hlabels', hlabels]
  decide

end WordAsm
