import WordAsm.Proofs.ListingImage
import WordAsm.Proofs.Placement

/-! The layout of a listing. Lines that give each label the address that it is reached at, and no
two of them one name, can be laid out, and then every label stands for the address in its name. -/

namespace WordAsm.Listing

variable {lexicon : Lexicon} {width : Nat} {strict : Bool}

namespace Line

/-- The bytes that a line takes in the image. -/
def size (width : Nat) : Line → Nat
  | code .. => width / 16 * 2
  | line => line.data.length

/-- The address behind a line that stands at `address`. -/
def behind (width : Nat) (address : UInt64) : Line → UInt64
  | origin value => value
  | line => address + UInt64.ofNat (line.size width) / 2

end Line

/-- Every label line stands at the address that it names. -/
def WellPlaced (width : Nat) : UInt64 → List Line → Prop
  | _, [] => True
  | address, line :: rest =>
    (∀ value, line = .label value → value = address) ∧
      WellPlaced width (line.behind width address) rest

theorem wellPlaced_append (front rest : List Line) (address : UInt64) :
    WellPlaced width address (front ++ rest) ↔ WellPlaced width address front ∧
      WellPlaced width (front.foldl (Line.behind width) address) rest := by
  induction front generalizing address with
  | nil => exact ⟨fun h => ⟨trivial, h⟩, fun h => h.2⟩
  | cons line front ih =>
    rw [List.cons_append, WellPlaced, WellPlaced, ih, and_assoc]
    rfl

theorem sizeOf_bare (width : Nat) (statement : Statement) :
    Layout.sizeOf width statement.bare = Layout.sizeOf width statement := by
  have hsize (slotSize : Nat) : Directive.dataSize slotSize (statement.args.map Token.bare) =
      Directive.dataSize slotSize statement.args := by
    refine Directive.dataSize_congr slotSize _ _ ?_
    rw [List.forall₂_map_right_iff, List.forall₂_same]
    exact fun arg _ => rfl
  simp only [Layout.sizeOf, Statement.mnemonic, Statement.bare, Token.bare, hsize]

/-- The mnemonic of a code line is no directive. -/
def Line.IsPlain (line : Line) : Prop :=
  ∀ mnemonic operands, line = .code mnemonic operands →
    Directive.isDirective (Text.lower mnemonic) = false

theorem isOrigin_org : Directive.isOrigin (Text.lower "org") = true := by decide +kernel

theorem sizeOf_data (mnemonic : String) (args : List Token) (slotSize : Nat)
    (h : Directive.slotSize? (Text.lower mnemonic) = some slotSize) :
    Layout.sizeOf width (Line.body?.instruction mnemonic args) =
      UInt64.ofNat (Directive.dataSize slotSize args) := by
  have hname : (Line.body?.instruction mnemonic args).mnemonic = Text.lower mnemonic := rfl
  rw [Layout.sizeOf, hname, h]
  rfl

theorem dataSize_hex (values : List UInt16) :
    Directive.dataSize 2 (values.map fun value => Token.ofHex 4 value.toNat) =
      values.length * 2 := by
  induction values with
  | nil => rfl
  | cons value values ih =>
    rw [List.map_cons, Directive.dataSize, ih, List.length_cons]
    change 1 * 2 + _ = _
    omega

/-- A statement that a line lists is retained and takes the place that the line has. -/
theorem sizeOf_body (width : Nat) (line : Line) (h : line.IsPlain)
    (hline : ∀ address, line ≠ .origin address) (body : Statement)
    (hbody : line.body? lexicon = some body) :
    body.retained = true ∧ Layout.sizeOf width body = UInt64.ofNat (line.size width) := by
  have hretained (mnemonic : String) (args : List Token)
      (horigin : Directive.isOrigin (Text.lower mnemonic) = false) :
      (Line.body?.instruction mnemonic args).retained = true :=
    (Statement.retained_iff _).mpr ⟨nofun, horigin⟩
  have hdata (mnemonic : String) (args : List Token) (slotSize : Nat)
      (hslot : Directive.slotSize? (Text.lower mnemonic) = some slotSize) :
      (Line.body?.instruction mnemonic args).retained = true :=
    hretained mnemonic args (Directive.isOrigin_of_slotSize? _ slotSize hslot)
  cases line with
  | label address => cases hbody
  | origin address => exact absurd rfl (hline address)
  | code mnemonic operands =>
    cases hbody
    have hdirective := h mnemonic operands rfl
    rw [Directive.isDirective, Bool.or_eq_false_iff] at hdirective
    have hslot : Directive.slotSize? (Text.lower mnemonic) = none := by simpa using hdirective.1
    refine ⟨hretained mnemonic _ hdirective.2, ?_⟩
    have hname : (Line.body?.instruction mnemonic (operands.map (Operand.token lexicon))).mnemonic =
        Text.lower mnemonic := rfl
    rw [Layout.sizeOf, hname, hslot]
    rfl
  | words values =>
    cases hbody
    refine ⟨hdata "dw" _ 2 slotSize?_dw, ?_⟩
    rw [sizeOf_data "dw" _ 2 slotSize?_dw, dataSize_hex]
    exact congrArg UInt64.ofNat (length_wordsBytes values).symm
  | string index text terminated =>
    cases hbody
    refine ⟨hdata "dw" _ 2 slotSize?_dw, ?_⟩
    rw [sizeOf_data "dw" _ 2 slotSize?_dw]
    refine congrArg UInt64.ofNat ?_
    have hslots : Directive.slots (.plain .string (String.ofList (text.map charOf)) .nowhere) =
        text.length := by
      change (String.ofList (text.map charOf)).length = _
      rw [← String.length_toList, String.toList_ofList, List.length_map]
    change _ = (text.flatMap wordBytes ++ if terminated then wordBytes 0 else []).length
    rw [Directive.dataSize, hslots, List.length_append, length_wordsBytes]
    cases terminated <;> rfl
  | byte value =>
    cases hbody
    refine ⟨hdata "db" _ 1 slotSize?_db, ?_⟩
    rw [sizeOf_data "db" _ 1 slotSize?_db]
    rfl

theorem originOf_bare (statement : Statement) (address : UInt64)
    (h : statement.bare = Line.body?.instruction "org" [.ofHex 4 address.toNat]) :
    statement.setsOrigin = true ∧ Layout.originOf statement = .ok address := by
  obtain ⟨hkind, hname, hargs⟩ := instruction_of_bare statement "org" _ h
  obtain ⟨arg, hargs, harg⟩ := List.map_eq_singleton_iff.mp hargs
  have hnumber : arg.kind = .number := congrArg Token.kind harg
  have hvalue : arg.value = .ok address := by
    have hbare := Token.value_ofHex 4 address.toNat address.toNat_lt
    rw [← harg, UInt64.ofNat_toNat] at hbare
    exact hbare
  constructor
  · rw [Statement.setsOrigin_iff, hkind, hname]
    exact ⟨nofun, isOrigin_org⟩
  · simp only [Layout.originOf, hargs, hnumber, if_true, hvalue]

/-- The statement of a line takes the address to what is behind the line. -/
theorem places_body (line : Line) (h : line.IsPlain) (address last : UInt64)
    (labels sites : NameMap LabelSite) (front rest placed : List Statement)
    (hfront : front.map Statement.bare = (line.body? lexicon).toList)
    (hrest : Layout.Places width strict (line.behind width address) labels rest placed last sites) :
    ∃ placed', Layout.Places width strict address labels (front ++ rest) placed' last sites := by
  -- an origin moves the address elsewhere, all other lines move it on by their size
  by_cases hline : ∃ value, line = .origin value
  · obtain ⟨value, rfl⟩ := hline
    obtain ⟨statement, rfl, hbare⟩ := List.map_eq_singleton_iff.mp hfront
    obtain ⟨horigin, hvalue⟩ := originOf_bare statement value hbare
    exact ⟨placed, .origin horigin hvalue hrest⟩
  have hbehind : line.behind width address = address + UInt64.ofNat (line.size width) / 2 := by
    cases line with
    | origin value => exact absurd ⟨value, rfl⟩ hline
    | label | code | words | string | byte => rfl
  rw [hbehind] at hrest
  cases hbody : line.body? lexicon with
  | none =>
    have hsize : line.size width = 0 := by
      cases line with
      | label value => rfl
      | origin | code | words | string | byte => cases hbody
    rw [hsize, show UInt64.ofNat 0 / 2 = 0 by decide, UInt64.add_zero] at hrest
    rw [hbody] at hfront
    rw [List.map_eq_nil_iff.mp hfront]
    exact ⟨placed, hrest⟩
  | some body =>
    rw [hbody] at hfront
    obtain ⟨statement, rfl, hbare⟩ := List.map_eq_singleton_iff.mp hfront
    obtain ⟨hretained, hsize⟩ := sizeOf_body width line h
      (fun value heq => hline ⟨value, heq⟩) body hbody
    rw [← hsize, ← hbare, sizeOf_bare] at hrest
    exact ⟨_, .retained ((retained_of_bare statement body hbare).trans hretained) hrest⟩

/-- Statements define the labels of their lines and no others. -/
theorem name_of_defines (lines : List Line) (statements : List Statement)
    (h : statements.map Statement.bare = lines.flatMap (Line.statements lexicon))
    (statement : Statement) (hmem : statement ∈ statements) (name : String)
    (hdefines : statement.defines name = true) : name ∈ lines.filterMap Line.name? := by
  obtain ⟨hkind, rfl⟩ := (statement.defines_iff name).mp hdefines
  have hbare := List.mem_map_of_mem (f := Statement.bare) hmem
  rw [h] at hbare
  obtain ⟨line, hline, hbare⟩ := List.mem_flatMap.mp hbare
  rcases List.mem_append.mp hbare with hbare | hbare
  · obtain ⟨name, hname, heq⟩ := List.mem_map.mp hbare
    have htext : name = statement.name.text :=
      congrArg (fun body : Statement => body.name.text) heq
    exact List.mem_filterMap.mpr ⟨line, hline, htext ▸ Option.mem_toList.mp hname⟩
  · obtain ⟨mnemonic, args, heq⟩ := line.instruction_of_body _ (Option.mem_toList.mp hbare)
    have hinstruction : statement.kind = .instruction := congrArg Statement.kind heq
    exact absurd (hkind.symm.trans hinstruction) nofun

/-- A name that no later line has keeps the address that it was given. -/
theorem get?_of_fresh {address behind last : UInt64} {labels sites : NameMap LabelSite}
    {pos : Position} {name : String} {lines : List Line} {statements placed : List Statement}
    (hplaces : Layout.Places width strict behind (labels.put name ⟨address, pos⟩) statements placed
      last sites)
    (h : statements.map Statement.bare = lines.flatMap (Line.statements lexicon))
    (hfresh : name ∉ lines.filterMap Line.name?) :
    (Layout.addresses sites).get? name = some address := by
  have hundefined : ∀ statement ∈ statements, statement.defines name = false :=
    fun statement hmem => Bool.eq_false_iff.mpr fun hdefines =>
      hfresh (name_of_defines lines statements h statement hmem name hdefines)
  simp [Layout.get?_addresses, hplaces.get?_of_undefined hundefined]

/-- Well placed lines with distinct names are laid out, and every label line gives its name the
address that it names. -/
theorem places_lines (strict : Bool) (lines : List Line) (hplain : ∀ line ∈ lines, line.IsPlain)
    (hnames : (lines.filterMap Line.name?).Nodup) (address : UInt64)
    (hplaced : WellPlaced width address lines) (labels : NameMap LabelSite)
    (hnew : ∀ name ∈ lines.filterMap Line.name?, labels.get? name = none)
    (statements : List Statement)
    (h : statements.map Statement.bare = lines.flatMap (Line.statements lexicon)) :
    ∃ placed last sites, Layout.Places width strict address labels statements placed last sites ∧
      ∀ value, Line.label value ∈ lines →
        (Layout.addresses sites).get? (labelName value) = some value := by
  induction lines generalizing address labels statements with
  | nil =>
    rw [List.map_eq_nil_iff.mp h]
    exact ⟨[], address, labels, .done address labels, fun value hvalue => by cases hvalue⟩
  | cons line lines ih =>
    obtain ⟨front, rest, rfl, hfront, hrest⟩ := List.map_eq_append_iff.mp h
    obtain ⟨defining, body, rfl, hdefining, hbody⟩ := List.map_eq_append_iff.mp hfront
    have hplain' := fun other hother => hplain other (List.mem_cons_of_mem line hother)
    cases hname : line.name? with
    | none =>
      rw [List.filterMap_cons_none hname] at hnames hnew
      obtain ⟨placed, last, sites, hplaces, hlabels⟩ :=
        ih hplain' hnames _ hplaced.2 labels hnew rest hrest
      obtain ⟨placed', hplaces'⟩ := places_body line (hplain line List.mem_cons_self) address last
        labels sites body rest placed hbody hplaces
      rw [hname] at hdefining
      rw [List.map_eq_nil_iff.mp hdefining]
      refine ⟨placed', last, sites, hplaces', fun value hvalue => ?_⟩
      rcases List.mem_cons.mp hvalue with rfl | hvalue
      · cases hname
      · exact hlabels value hvalue
    | some name =>
      rw [List.filterMap_cons_some hname] at hnames hnew
      obtain ⟨hfresh, hnames⟩ := List.nodup_cons.mp hnames
      rw [hname] at hdefining
      obtain ⟨definition, rfl, hdefinition⟩ := List.map_eq_singleton_iff.mp hdefining
      have hkind : definition.kind = .label := congrArg Statement.kind hdefinition
      have htext : definition.name.text = name :=
        congrArg (fun body : Statement => body.name.text) hdefinition
      have hnew' : ∀ other ∈ lines.filterMap Line.name?,
          (labels.put name ⟨address, definition.name.pos⟩).get? other = none := by
        intro other hother
        have hne : other ≠ name := fun heq => hfresh (heq ▸ hother)
        simpa [hne] using hnew other (List.mem_cons_of_mem _ hother)
      obtain ⟨placed, last, sites, hplaces, hlabels⟩ :=
        ih hplain' hnames _ hplaced.2 _ hnew' rest hrest
      obtain ⟨placed', hplaces'⟩ := places_body line (hplain line List.mem_cons_self) address last
        _ sites body rest placed hbody hplaces
      refine ⟨placed', last, sites, .label hkind (fun _ => ?_) (htext ▸ hplaces'), ?_⟩
      · rw [htext]
        exact hnew name List.mem_cons_self
      intro value hvalue
      rcases List.mem_cons.mp hvalue with rfl | hvalue
      · have hlabel : labelName value = name := Option.some.inj hname
        rw [hlabel, hplaced.1 value rfl]
        exact get?_of_fresh hplaces hrest hfresh
      · exact hlabels value hvalue

end WordAsm.Listing
