import Mathlib.Data.List.DropRight
import WordAsm.Proofs.LayoutAgreement
import WordAsm.Proofs.Outcomes

/-! What a layout is, in terms of the program alone. The address behind some statements is the value
of the last origin among them plus half of every size since, a label stands for the address behind
what comes before its last definition, and a reference becomes the number of its label. A program
has a layout exactly when its origins are numbers, its references are defined and, where that is
asked for, no label is defined twice. -/

namespace WordAsm

/-- What an argument becomes in a layout: a label reference the number that its selections make of
the address, and anything else what it was. -/
def Token.ResolvesTo (labels : NameMap UInt64) (arg result : Token) : Prop :=
  (arg.kind = .identifier ∧ ∃ address, labels.get? arg.text = some address ∧
    result = .ofValue (BitField.applyAll arg.fields address) arg.pos) ∨
  (arg.kind ≠ .identifier ∧ result = arg)

/-- Every statement defines a label, or sets the origin, or is retained. -/
theorem Statement.label_or_origin_or_retained (statement : Statement) :
    statement.kind = .label ∨ statement.setsOrigin = true ∨ statement.retained = true := by
  rw [setsOrigin_iff, retained_iff]
  by_cases hkind : statement.kind = .label
  · exact .inl hkind
  · cases horigin : Directive.isOrigin statement.mnemonic with
    | true => exact .inr (.inl ⟨hkind, rfl⟩)
    | false => exact .inr (.inr ⟨hkind, rfl⟩)

namespace Layout

/-- The number that an `org` statement gives. -/
def originValue? (statement : Statement) : Option UInt64 :=
  match statement.args with
  | [arg] => arg.value.toOption
  | _ => none

/-- The value of the last origin, zero where there is none. -/
def lastOrigin (front : List Statement) : UInt64 :=
  ((front.filter Statement.setsOrigin).getLast?.bind originValue?).getD 0

/-- The statements behind the last origin. -/
def sinceOrigin (front : List Statement) : List Statement :=
  front.rtakeWhile fun statement => !statement.setsOrigin

/-- The address behind some statements: that of the last origin and half of every size since. -/
def addressBehind (width : Nat) (front : List Statement) : UInt64 :=
  lastOrigin front +
    (((sinceOrigin front).filter Statement.retained).map fun statement =>
      sizeOf width statement / 2).sum

/-- The names of the labels that are defined, in order. -/
def labelNames (statements : List Statement) : List String :=
  (statements.filter fun statement => statement.kind = .label).map fun label => label.name.text

/-- What a program has to be like for it to have a layout. -/
structure Resolvable (strict : Bool) (statements : List Statement) : Prop where
  /-- Every origin is given by one number that can be read. -/
  origins : ∀ statement ∈ statements, statement.setsOrigin = true →
    ∃ arg value, statement.args = [arg] ∧ arg.kind = .number ∧ arg.value = .ok value
  /-- Every reference names a label that is defined somewhere. -/
  references : ∀ statement ∈ statements, statement.retained = true → ∀ arg ∈ statement.args,
    arg.kind = .identifier → ∃ label ∈ statements, label.defines arg.text = true
  /-- No label is defined twice if that is forbidden. -/
  distinct : strict = true → (labelNames statements).Nodup

/-- What the layout of a program consists of. -/
structure Describes (width : Nat) (statements : List Statement) (layout : Layout) : Prop where
  length : layout.statements.length = rank statements
  /-- The retained statements come in order, each at the address behind those in front of it. -/
  retained : ∀ (before : List Statement) (statement : Statement) (after : List Statement),
    statements = before ++ statement :: after → statement.retained = true →
    ∃ args, List.Forall₂ (Token.ResolvesTo layout.labels) statement.args args ∧
      layout.statements[rank before]? = some { statement with
        args, address := addressBehind width before, size := sizeOf width statement }
  /-- A label stands for the address that its last definition is reached at. -/
  labels : ∀ (before : List Statement) (definition : Statement) (after : List Statement),
    statements = before ++ definition :: after → definition.kind = .label →
    (∀ statement ∈ after, statement.defines definition.name.text = false) →
    layout.labels.get? definition.name.text = some (addressBehind width before)
  undefined : ∀ name, (∀ statement ∈ statements, statement.defines name = false) →
    layout.labels.get? name = none

theorem originOf_eq_ok_iff (statement : Statement) (origin : UInt64) :
    originOf statement = .ok origin ↔
      ∃ arg, statement.args = [arg] ∧ arg.kind = .number ∧ arg.value = .ok origin := by
  rw [originOf]
  split
  · rename_i arg hargs
    split
    · rename_i hkind
      cases hvalue : arg.value with
      | ok value => simp [hkind, hvalue, hargs]
      | error fault => simp [hvalue, hargs]
    · rename_i hkind
      simp [hkind, hargs]
  · rename_i hargs
    constructor
    · intro h
      cases h
    · rintro ⟨arg, harg, -⟩
      exact absurd harg (hargs arg)

theorem originValue?_of_originOf (statement : Statement) (origin : UInt64)
    (h : originOf statement = .ok origin) : originValue? statement = some origin := by
  obtain ⟨arg, hargs, -, hvalue⟩ := (originOf_eq_ok_iff statement origin).mp h
  simp [originValue?, hargs, hvalue, Except.toOption]

section AddressBehind

variable {width : Nat} (front : List Statement) (statement : Statement)

theorem addressBehind_nil : addressBehind width [] = 0 := rfl

/-- A label takes no room. -/
theorem addressBehind_label (h : statement.kind = .label) :
    addressBehind width (front ++ [statement]) = addressBehind width front := by
  have horigin : statement.setsOrigin = false := by simp [Statement.setsOrigin, h]
  have hretained : statement.retained = false := by simp [Statement.retained, h]
  simp [addressBehind, lastOrigin, sinceOrigin, horigin, hretained]

/-- An origin starts over, whatever stands in front of it. -/
theorem addressBehind_origin (h : statement.setsOrigin = true) (origin : UInt64)
    (hvalue : originOf statement = .ok origin) :
    addressBehind width (front ++ [statement]) = origin := by
  simp [addressBehind, lastOrigin, sinceOrigin, h,
    originValue?_of_originOf statement origin hvalue]

/-- A retained statement moves the address on by half of its size. -/
theorem addressBehind_retained (h : statement.retained = true) :
    addressBehind width (front ++ [statement]) =
      addressBehind width front + sizeOf width statement / 2 := by
  have horigin : statement.setsOrigin = false := by
    simp [Statement.setsOrigin, (statement.retained_iff.mp h).2]
  simp [addressBehind, lastOrigin, sinceOrigin, horigin, h, add_assoc]

end AddressBehind

variable {width : Nat} {strict : Bool}

/-- Placing ends at the address behind what was placed. -/
theorem Places.last_eq_addressBehind (front : List Statement) {placed : List Statement}
    {last : UInt64} {sites : NameMap LabelSite}
    (h : Places width strict 0 [] front placed last sites) :
    last = addressBehind width front := by
  -- the running address depends on all that came before, so statements are added at the end
  induction front using List.reverseRecOn generalizing placed last sites with
  | nil =>
    cases h
    exact addressBehind_nil.symm
  | append_singleton front statement ih =>
    obtain ⟨first, known, middle, second, hfront, hlast, rfl⟩ := h.of_append front
    have hmiddle := ih hfront
    cases hlast with
    | label hkind hnew hrest =>
      cases hrest
      rw [addressBehind_label front statement hkind, hmiddle]
    | origin horigin hvalue hrest =>
      cases hrest
      rw [addressBehind_origin front statement horigin _ hvalue]
    | retained hretained hrest =>
      cases hrest
      rw [addressBehind_retained front statement hretained, hmiddle]

theorem mem_labelNames_iff (statements : List Statement) (name : String) :
    name ∈ labelNames statements ↔ ∃ label ∈ statements, label.defines name = true := by
  simp [labelNames, Statement.defines, and_assoc]

theorem labelNames_cons_of_label (statement : Statement) (rest : List Statement)
    (h : statement.kind = .label) :
    labelNames (statement :: rest) = statement.name.text :: labelNames rest := by
  simp [labelNames, h]

theorem labelNames_cons_of_ne (statement : Statement) (rest : List Statement)
    (h : statement.kind ≠ .label) : labelNames (statement :: rest) = labelNames rest := by
  simp [labelNames, h]

section Inversion

variable {address last : UInt64} {labels sites : NameMap LabelSite} {statement : Statement}
  {rest placed : List Statement}

theorem places_label_iff (hkind : statement.kind = .label) :
    Places width strict address labels (statement :: rest) placed last sites ↔
      (strict = true → labels.get? statement.name.text = none) ∧
        Places width strict address (labels.put statement.name.text ⟨address, statement.name.pos⟩)
          rest placed last sites := by
  refine ⟨fun h => ?_, fun ⟨hnew, hrest⟩ => .label hkind hnew hrest⟩
  cases h with
  | label _ hnew hrest => exact ⟨hnew, hrest⟩
  | origin horigin => exact absurd hkind (statement.setsOrigin_iff.mp horigin).1
  | retained hretained => exact absurd hkind (statement.retained_iff.mp hretained).1

theorem places_origin_iff (horigin : statement.setsOrigin = true) :
    Places width strict address labels (statement :: rest) placed last sites ↔
      ∃ origin, originOf statement = .ok origin ∧
        Places width strict origin labels rest placed last sites := by
  refine ⟨fun h => ?_, fun ⟨origin, hvalue, hrest⟩ => .origin horigin hvalue hrest⟩
  cases h with
  | label hkind => exact absurd hkind (statement.setsOrigin_iff.mp horigin).1
  | origin _ hvalue hrest => exact ⟨_, hvalue, hrest⟩
  | retained hretained =>
    rw [statement.retained_iff] at hretained
    rw [statement.setsOrigin_iff, hretained.2] at horigin
    cases horigin.2

theorem places_retained_iff (hretained : statement.retained = true) :
    Places width strict address labels (statement :: rest) placed last sites ↔
      ∃ later, placed = placedAt width address statement :: later ∧
        Places width strict (address + sizeOf width statement / 2) labels rest later last
          sites := by
  refine ⟨fun h => ?_, ?_⟩
  · cases h with
    | label hkind => exact absurd hkind (statement.retained_iff.mp hretained).1
    | origin horigin =>
      rw [statement.retained_iff] at hretained
      rw [statement.setsOrigin_iff, hretained.2] at horigin
      cases horigin.2
    | retained _ hrest => exact ⟨_, rfl, hrest⟩
  · rintro ⟨later, rfl, hrest⟩
    exact .retained hretained hrest

end Inversion

/-- The names of the labels occur once, and none of them is known already. -/
def NewLabels (labels : NameMap LabelSite) (statements : List Statement) : Prop :=
  (labelNames statements).Nodup ∧ ∀ name ∈ labelNames statements, labels.get? name = none

theorem newLabels_cons_of_label (labels : NameMap LabelSite) (site : LabelSite)
    (statement : Statement) (rest : List Statement) (h : statement.kind = .label) :
    NewLabels labels (statement :: rest) ↔
      labels.get? statement.name.text = none ∧
        NewLabels (labels.put statement.name.text site) rest := by
  rw [NewLabels, NewLabels, labelNames_cons_of_label statement rest h, List.nodup_cons,
    List.forall_mem_cons]
  constructor
  · rintro ⟨⟨hnot, hnodup⟩, hfirst, hrest⟩
    refine ⟨hfirst, hnodup, fun name hname => ?_⟩
    have hne : name ≠ statement.name.text := fun heq => hnot (heq ▸ hname)
    simpa [hne] using hrest name hname
  · rintro ⟨hfirst, hnodup, hrest⟩
    -- a later definition of the name would meet the site that was just put
    have hne : ∀ name ∈ labelNames rest, name ≠ statement.name.text := by
      intro name hname heq
      simpa [heq] using hrest name hname
    refine ⟨⟨fun hmem => hne _ hmem rfl, hnodup⟩, hfirst, fun name hname => ?_⟩
    simpa [hne name hname] using hrest name hname

theorem newLabels_cons_of_ne (labels : NameMap LabelSite) (statement : Statement)
    (rest : List Statement) (h : statement.kind ≠ .label) :
    NewLabels labels (statement :: rest) ↔ NewLabels labels rest := by
  rw [NewLabels, NewLabels, labelNames_cons_of_ne statement rest h]

/-- A program can be placed exactly when its origins can be read and, where that is asked for, its
labels are new. -/
theorem exists_places_iff (statements : List Statement) (address : UInt64)
    (labels : NameMap LabelSite) :
    (∃ placed last sites, Places width strict address labels statements placed last sites) ↔
      (∀ statement ∈ statements, statement.setsOrigin = true →
        ∃ origin, originOf statement = .ok origin) ∧
      (strict = true → NewLabels labels statements) := by
  induction statements generalizing address labels with
  | nil =>
    refine ⟨fun _ => ?_, fun _ => ⟨[], address, labels, .done address labels⟩⟩
    exact ⟨List.forall_mem_nil _, fun _ => ⟨List.nodup_nil, List.forall_mem_nil _⟩⟩
  | cons statement rest ih =>
    rw [List.forall_mem_cons]
    rcases statement.label_or_origin_or_retained with hkind | horigin | hretained
    · have hnot : statement.setsOrigin = false := by simp [Statement.setsOrigin, hkind]
      simp only [places_label_iff hkind, exists_and_left, ih, hnot, newLabels_cons_of_label labels
        ⟨address, statement.name.pos⟩ statement rest hkind]
      tauto
    · have hne := (statement.setsOrigin_iff.mp horigin).1
      simp only [places_origin_iff horigin, newLabels_cons_of_ne labels statement rest hne]
      constructor
      · rintro ⟨placed, last, sites, origin, hvalue, hrest⟩
        obtain ⟨horigins, hnew⟩ := (ih origin labels).mp ⟨placed, last, sites, hrest⟩
        exact ⟨⟨fun _ => ⟨origin, hvalue⟩, horigins⟩, hnew⟩
      · rintro ⟨⟨hfirst, horigins⟩, hnew⟩
        obtain ⟨origin, hvalue⟩ := hfirst horigin
        obtain ⟨placed, last, sites, hrest⟩ := (ih origin labels).mpr ⟨horigins, hnew⟩
        exact ⟨placed, last, sites, origin, hvalue, hrest⟩
    · obtain ⟨hne, hname⟩ := statement.retained_iff.mp hretained
      have hnot : statement.setsOrigin = false := by simp [Statement.setsOrigin, hname]
      simp only [places_retained_iff hretained, newLabels_cons_of_ne labels statement rest hne,
        hnot]
      constructor
      · rintro ⟨placed, last, sites, later, -, hrest⟩
        obtain ⟨horigins, hnew⟩ := (ih _ labels).mp ⟨later, last, sites, hrest⟩
        exact ⟨⟨fun h => absurd h Bool.false_ne_true, horigins⟩, hnew⟩
      · rintro ⟨⟨-, horigins⟩, hnew⟩
        obtain ⟨later, last, sites, hrest⟩ := (ih _ labels).mpr ⟨horigins, hnew⟩
        exact ⟨_, last, sites, later, rfl, hrest⟩

/-- A name is known in the end if it was known before or is defined. -/
theorem Places.isSome_get?_iff {address last : UInt64} {labels sites : NameMap LabelSite}
    {statements placed : List Statement}
    (h : Places width strict address labels statements placed last sites) (name : String) :
    (sites.get? name).isSome = true ↔
      (labels.get? name).isSome = true ∨ name ∈ labelNames statements := by
  induction h with
  | done => simp [labelNames]
  | @label address last labels sites statement rest placed hkind hnew hrest ih =>
    rw [ih, labelNames_cons_of_label statement rest hkind, NameMap.get?_put, List.mem_cons]
    by_cases hname : name = statement.name.text
    · simp [hname]
    · simp [hname]
  | @origin address origin last labels sites statement rest placed horigin hvalue hrest ih =>
    rw [ih, labelNames_cons_of_ne statement rest (statement.setsOrigin_iff.mp horigin).1]
  | @retained address last labels sites statement rest placed hretained hrest ih =>
    rw [ih, labelNames_cons_of_ne statement rest (statement.retained_iff.mp hretained).1]

/-- What was placed says what it was given. -/
theorem Places.args_placed {address last : UInt64} {labels sites : NameMap LabelSite}
    {statements placed : List Statement}
    (h : Places width strict address labels statements placed last sites) :
    placed.map Statement.args = (statements.filter Statement.retained).map Statement.args := by
  have hplaced := h.placed_retained
  clear h
  generalize statements.filter Statement.retained = given at hplaced
  induction hplaced with
  | nil => rfl
  | cons hfirst _ ih =>
    obtain ⟨place, rfl⟩ := hfirst
    rw [List.map_cons, List.map_cons, ih]
    rfl

theorem resolveArg_eq_ok_iff (labels : NameMap UInt64) (arg result : Token) :
    resolveArg labels arg = .ok result ↔ arg.ResolvesTo labels result := by
  rw [resolveArg, Token.ResolvesTo]
  by_cases hkind : arg.kind = .identifier
  · rw [if_pos hkind]
    cases labels.get? arg.text with
    | none => simp [hkind]
    | some address => simp [hkind, eq_comm]
  · rw [if_neg hkind]
    simp [hkind, eq_comm]

/-- References can be resolved exactly when all of their labels are known. -/
theorem exists_resolveArgs_iff (labels : NameMap UInt64) (statement : Statement) :
    (∃ resolved, resolveArgs labels statement = .ok resolved) ↔
      ∀ arg ∈ statement.args, arg.kind = .identifier →
        (labels.get? arg.text).isSome = true := by
  have hargs : (∃ resolved, resolveArgs labels statement = .ok resolved) ↔
      ∃ args, List.Forall₂ (Token.ResolvesTo labels) statement.args args := by
    simp only [resolveArgs_eq_ok_iff, resolveArg_eq_ok_iff]
    exact ⟨fun ⟨_, args, h, _⟩ => ⟨args, h⟩, fun ⟨args, h⟩ => ⟨_, args, h, rfl⟩⟩
  rw [hargs, exists_forall₂_iff]
  refine forall₂_congr fun arg _ => ?_
  by_cases hkind : arg.kind = .identifier
  · simp [Token.ResolvesTo, hkind, Option.isSome_iff_exists]
  · simp [Token.ResolvesTo, hkind]

/-- What was placed can be resolved exactly when every label that a retained statement refers to is
defined. -/
theorem Places.exists_kept_iff {last : UInt64} {sites : NameMap LabelSite}
    {statements placed : List Statement}
    (h : Places width strict 0 [] statements placed last sites) :
    (∃ kept, List.Forall₂ (fun given kept => resolveArgs (addresses sites) given = .ok kept)
      placed kept) ↔
      ∀ statement ∈ statements, statement.retained = true → ∀ arg ∈ statement.args,
        arg.kind = .identifier → ∃ other ∈ statements, other.defines arg.text = true := by
  have hknown (name : String) : ((addresses sites).get? name).isSome = true ↔
      ∃ other ∈ statements, other.defines name = true := by
    rw [get?_addresses, Option.isSome_map, h.isSome_get?_iff, mem_labelNames_iff]
    exact or_iff_right Bool.false_ne_true
  -- the arguments that were placed are those of the retained statements
  have hargs (P : List Token → Prop) : (∀ taken ∈ placed, P taken.args) ↔
      ∀ statement ∈ statements.filter Statement.retained, P statement.args := by
    rw [← List.forall_mem_map, h.args_placed, List.forall_mem_map]
  simp only [exists_forall₂_iff, exists_resolveArgs_iff, hknown]
  rw [hargs fun args => ∀ arg ∈ args, arg.kind = .identifier →
    ∃ other ∈ statements, other.defines arg.text = true]
  simp only [List.mem_filter, and_imp]

/-- A program has a layout exactly when it meets the conditions for one. -/
theorem exists_resolve_iff (statements : List Statement) :
    (∃ layout, resolve width strict statements = .ok layout) ↔ Resolvable strict statements := by
  simp only [resolve_eq_ok_iff]
  constructor
  · rintro ⟨layout, placed, last, sites, hplaces, hlabels, hkept⟩
    obtain ⟨horigins, hnew⟩ := (exists_places_iff statements 0 []).mp ⟨placed, last, sites, hplaces⟩
    rw [hlabels] at hkept
    refine ⟨?_, hplaces.exists_kept_iff.mp ⟨_, hkept⟩, fun hstrict => (hnew hstrict).1⟩
    intro statement hmem horigin
    obtain ⟨origin, hvalue⟩ := horigins statement hmem horigin
    obtain ⟨arg, hargs, hkind, hvalue⟩ := (originOf_eq_ok_iff statement origin).mp hvalue
    exact ⟨arg, origin, hargs, hkind, hvalue⟩
  · intro h
    have horigins : ∀ statement ∈ statements, statement.setsOrigin = true →
        ∃ origin, originOf statement = .ok origin := by
      intro statement hmem horigin
      obtain ⟨arg, value, hargs, hkind, hvalue⟩ := h.origins statement hmem horigin
      exact ⟨value, (originOf_eq_ok_iff statement value).mpr ⟨arg, hargs, hkind, hvalue⟩⟩
    have hnew (hstrict : strict = true) : NewLabels [] statements :=
      ⟨h.distinct hstrict, fun _ _ => rfl⟩
    obtain ⟨placed, last, sites, hplaces⟩ :
        ∃ placed last sites, Places width strict 0 [] statements placed last sites :=
      (exists_places_iff statements 0 []).mpr ⟨horigins, hnew⟩
    obtain ⟨kept, hkept⟩ := hplaces.exists_kept_iff.mpr h.references
    exact ⟨⟨kept, addresses sites⟩, placed, last, sites, hplaces, rfl, hkept⟩

/-- A layout is made of what the program says. -/
theorem describes_of_resolve (statements : List Statement) (layout : Layout)
    (h : resolve width strict statements = .ok layout) : layout.Describes width statements := by
  obtain ⟨placed, last, sites, hplaces, hlabels, hkept⟩ := (resolve_eq_ok_iff _ _).mp h
  refine ⟨hkept.length_eq.symm.trans hplaces.length_placed, ?_, ?_, ?_⟩
  · rintro before statement after rfl hretained
    obtain ⟨earlier, known, place, later, hearlier, hlater, rfl⟩ := hplaces.of_append before
    obtain ⟨kept, hindex, hresolve⟩ :=
      forall₂_getElem? hkept _ _ (hlater.getElem?_length hretained earlier)
    obtain ⟨args, hargs, rfl⟩ := (resolveArgs_eq_ok_iff _ _ _).mp hresolve
    refine ⟨args, hargs.imp fun arg result => (resolveArg_eq_ok_iff _ arg result).mp, ?_⟩
    rw [← hearlier.length_placed, hindex, ← hearlier.last_eq_addressBehind]
    rfl
  · rintro before definition after rfl hkind hlast
    obtain ⟨earlier, known, place, later, hearlier, hlater, rfl⟩ := hplaces.of_append before
    rw [hlabels, get?_addresses, hlater.get?_of_last_definition hkind hlast,
      ← hearlier.last_eq_addressBehind]
    rfl
  · intro name hname
    rw [hlabels, get?_addresses, hplaces.get?_of_undefined hname]
    rfl

/-- What can be placed with labels that are new can be placed with any labels. -/
theorem Places.relax {address last : UInt64} {labels sites : NameMap LabelSite}
    {statements placed : List Statement}
    (h : Places width true address labels statements placed last sites) :
    Places width false address labels statements placed last sites := by
  induction h with
  | done address labels => exact .done address labels
  | label hkind hnew hrest ih => exact .label hkind nofun ih
  | origin horigin hvalue hrest ih => exact .origin horigin hvalue ih
  | retained hretained hrest ih => exact .retained hretained ih

end Layout

/-- A program has a layout exactly when its origins are numbers, its references are defined and, in
strict mode, its labels are distinct. The layout is then as described, and it does not depend on the
mode. -/
theorem layout_meets_specification (set : InstructionSet) (strict : Bool)
    (statements : List Statement) :
    ((∃ layout, Layout.resolve set.width strict statements = .ok layout) ↔
      Layout.Resolvable strict statements) ∧
    (∀ layout, Layout.resolve set.width strict statements = .ok layout →
      layout.Describes set.width statements) ∧
    (∀ layout, Layout.resolve set.width true statements = .ok layout →
      Layout.resolve set.width false statements = .ok layout) := by
  refine ⟨Layout.exists_resolve_iff statements, Layout.describes_of_resolve statements, ?_⟩
  intro layout h
  obtain ⟨placed, last, sites, hplaces, hrest⟩ := (Layout.resolve_eq_ok_iff _ _).mp h
  exact (Layout.resolve_eq_ok_iff _ _).mpr ⟨placed, last, sites, hplaces.relax, hrest⟩

/-- A label that is defined in front of an odd string and again behind an origin, with a reference
to it in between and one to eight bits of a later label. -/
def reusedLabel : List Statement :=
  let name (text : String) : Token := .plain .identifier text (.start "")
  [.unplaced .label (name "start") [],
    .unplaced .instruction (name "db") [.plain .string "abc" (.start "")],
    .unplaced .instruction (name "Org") [.ofValue 0x100 (.start "")],
    .unplaced .instruction (name "dw") [name "start"],
    .unplaced .label (name "start") [],
    .unplaced .instruction (name "dw") [{ name "end" with fields := [⟨"", 4, 8⟩] }],
    .unplaced .label (name "end") []]

/-- The last definition counts, and it is reached one word behind the origin. -/
theorem reusedLabel_described :
    ∃ layout, Layout.resolve Zirc16.table.width false reusedLabel = .ok layout ∧
      layout.Describes Zirc16.table.width reusedLabel ∧
      layout.labels.get? "start" = some 0x101 ∧ ¬ Layout.Resolvable true reusedLabel := by
  have hrun : (Layout.resolve Zirc16.table.width false reusedLabel).toOption.any (fun _ => true) =
      true := by
    decide +kernel
  obtain ⟨layout, hlayout, -⟩ := exists_ok_of_any _ _ hrun
  have hdescribes :=
    (layout_meets_specification Zirc16.table false reusedLabel).2.1 layout hlayout
  refine ⟨layout, hlayout, hdescribes, ?_, ?_⟩
  · have hlabel := hdescribes.labels (reusedLabel.take 4) _ _ rfl rfl (by decide +kernel)
    have haddress : Layout.addressBehind Zirc16.table.width (reusedLabel.take 4) = 0x101 := by
      decide +kernel
    rw [haddress] at hlabel
    exact hlabel
  · intro hresolvable
    obtain ⟨other, hother⟩ :=
      (layout_meets_specification Zirc16.table true reusedLabel).1.mpr hresolvable
    have hfails : (Layout.resolve Zirc16.table.width true reusedLabel).toBool = false := by
      decide +kernel
    rw [hother] at hfails
    cases hfails

end WordAsm
