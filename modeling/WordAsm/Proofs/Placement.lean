import Mathlib.Data.UInt
import WordAsm.Layout
import WordAsm.Proofs.Checks
import WordAsm.Proofs.NameMaps

/-! Placing, statement by statement. A statement either defines a label, or sets the origin, or is
retained and takes a place. A program is placed in two halves, the second from the address behind
the first on, and a label stands for the address behind what comes before its last definition. -/

namespace WordAsm

namespace Statement

/-- The statement sets the address of what follows. -/
def setsOrigin (statement : Statement) : Bool :=
  statement.kind ≠ .label && Directive.isOrigin statement.mnemonic

/-- The statement takes a place in the image. -/
def retained (statement : Statement) : Bool :=
  statement.kind ≠ .label && !Directive.isOrigin statement.mnemonic

/-- The statement defines the label `name`. -/
def defines (statement : Statement) (name : String) : Bool :=
  statement.kind = .label && statement.name.text == name

theorem setsOrigin_iff (statement : Statement) :
    statement.setsOrigin = true ↔
      statement.kind ≠ .label ∧ Directive.isOrigin statement.mnemonic = true := by
  simp [setsOrigin]

theorem retained_iff (statement : Statement) :
    statement.retained = true ↔
      statement.kind ≠ .label ∧ Directive.isOrigin statement.mnemonic = false := by
  simp [retained]

theorem defines_iff (statement : Statement) (name : String) :
    statement.defines name = true ↔ statement.kind = .label ∧ statement.name.text = name := by
  simp [defines]

end Statement

namespace Layout

/-- A retained statement with its place. -/
def placedAt (width : Nat) (address : UInt64) (statement : Statement) : Statement :=
  { statement with address, size := sizeOf width statement }

theorem size_placedAt (width : Nat) (address : UInt64) (statement : Statement) :
    (placedAt width address statement).size = sizeOf width statement :=
  rfl

/-- Placing `statements` from `address` on, with the labels known there, gives them their places
and ends at the last address with the labels known by then. -/
inductive Places (width : Nat) (strict : Bool) :
    (address : UInt64) → NameMap LabelSite → List Statement →
      List Statement → (last : UInt64) → NameMap LabelSite → Prop where
  | done (address : UInt64) (labels : NameMap LabelSite) :
    Places width strict address labels [] [] address labels
  | label {address last : UInt64} {labels sites : NameMap LabelSite} {statement : Statement}
    {rest placed : List Statement} (hkind : statement.kind = .label)
    (hnew : strict = true → labels.get? statement.name.text = none)
    (hrest : Places width strict address
      (labels.put statement.name.text ⟨address, statement.name.pos⟩) rest placed last sites) :
    Places width strict address labels (statement :: rest) placed last sites
  | origin {address origin last : UInt64} {labels sites : NameMap LabelSite}
    {statement : Statement} {rest placed : List Statement} (horigin : statement.setsOrigin = true)
    (hvalue : originOf statement = .ok origin)
    (hrest : Places width strict origin labels rest placed last sites) :
    Places width strict address labels (statement :: rest) placed last sites
  | retained {address last : UInt64} {labels sites : NameMap LabelSite} {statement : Statement}
    {rest placed : List Statement} (hretained : statement.retained = true)
    (hrest : Places width strict (address + sizeOf width statement / 2) labels rest placed last
      sites) :
    Places width strict address labels (statement :: rest)
      (placedAt width address statement :: placed) last sites

variable {width : Nat} {strict : Bool}

theorem Places.place_eq {address last : UInt64} {labels sites : NameMap LabelSite}
    {statements placed : List Statement}
    (h : Places width strict address labels statements placed last sites) :
    place width strict address labels statements = .ok (placed, sites) := by
  induction h with
  | done address labels => rfl
  | label hkind hnew hrest ih =>
    rw [place, if_pos hkind]
    cases strict with
    | false => exact ih
    | true => simpa only [if_true, hnew rfl] using ih
  | origin horigin hvalue hrest ih =>
    obtain ⟨hkind, horigin⟩ := (Statement.setsOrigin_iff _).mp horigin
    rw [place, if_neg hkind, if_pos horigin, hvalue]
    exact ih
  | retained hretained hrest ih =>
    obtain ⟨hkind, horigin⟩ := (Statement.retained_iff _).mp hretained
    rw [place, if_neg hkind, horigin]
    simp only [Bool.false_eq_true, if_false, ih]
    rfl

theorem exists_places (statements : List Statement) (address : UInt64)
    (labels : NameMap LabelSite) (placed : List Statement) (sites : NameMap LabelSite)
    (h : place width strict address labels statements = .ok (placed, sites)) :
    ∃ last, Places width strict address labels statements placed last sites := by
  -- the branches of `place` are the constructors of `Places`
  induction statements generalizing address labels placed with
  | nil =>
    cases h
    exact ⟨address, .done address _⟩
  | cons statement rest ih =>
    rw [place] at h
    by_cases hkind : statement.kind = .label
    · rw [if_pos hkind] at h
      cases hknown : (if strict then labels.get? statement.name.text else none) with
      | some site =>
        simp only [hknown] at h
        cases h
      | none =>
        simp only [hknown] at h
        obtain ⟨last, hrest⟩ := ih _ _ _ h
        refine ⟨last, .label hkind ?_ hrest⟩
        intro hstrict
        simpa only [hstrict, if_true] using hknown
    · rw [if_neg hkind] at h
      cases horigin : Directive.isOrigin statement.mnemonic with
      | true =>
        rw [horigin, if_pos rfl] at h
        obtain ⟨origin, hvalue, h⟩ := bind_eq_ok_iff.mp h
        obtain ⟨last, hrest⟩ := ih _ _ _ h
        exact ⟨last, .origin (statement.setsOrigin_iff.mpr ⟨hkind, horigin⟩) hvalue hrest⟩
      | false =>
        rw [horigin, if_neg Bool.false_ne_true] at h
        obtain ⟨⟨later, known⟩, hlater, h⟩ := bind_eq_ok_iff.mp h
        cases h
        obtain ⟨last, hrest⟩ := ih _ _ _ hlater
        exact ⟨last, .retained (statement.retained_iff.mpr ⟨hkind, horigin⟩) hrest⟩

/-- An origin is asked for by one number. -/
theorem exists_of_originOf (statement : Statement) (origin : UInt64)
    (h : originOf statement = .ok origin) :
    ∃ arg, statement.args = [arg] ∧ arg.kind = .number := by
  rw [originOf] at h
  split at h
  · rename_i arg hargs
    split at h
    · exact ⟨arg, hargs, ‹_›⟩
    · cases h
  · cases h

/-- A program is placed in two halves, the second from the address behind the first on. -/
theorem Places.of_append {address last : UInt64} {labels sites : NameMap LabelSite}
    (front : List Statement) {rest placed : List Statement}
    (h : Places width strict address labels (front ++ rest) placed last sites) :
    ∃ first known middle second, Places width strict address labels front first middle known ∧
      Places width strict middle known rest second last sites ∧ placed = first ++ second := by
  induction front generalizing address labels placed with
  | nil => exact ⟨[], labels, address, placed, .done address labels, h, rfl⟩
  | cons statement front ih =>
    cases h with
    | label hkind hnew hrest =>
      obtain ⟨first, known, middle, second, hfirst, hsecond, rfl⟩ := ih hrest
      exact ⟨first, known, middle, second, .label hkind hnew hfirst, hsecond, rfl⟩
    | origin horigin hvalue hrest =>
      obtain ⟨first, known, middle, second, hfirst, hsecond, rfl⟩ := ih hrest
      exact ⟨first, known, middle, second, .origin horigin hvalue hfirst, hsecond, rfl⟩
    | retained hretained hrest =>
      obtain ⟨first, known, middle, second, hfirst, hsecond, rfl⟩ := ih hrest
      exact ⟨_ :: first, known, middle, second, .retained hretained hfirst, hsecond, rfl⟩

/-- The retained statements are placed in order, with what they say left as it is. -/
theorem Places.placed_retained {address last : UInt64} {labels sites : NameMap LabelSite}
    {statements placed : List Statement}
    (h : Places width strict address labels statements placed last sites) :
    List.Forall₂ (fun given taken => ∃ place, taken = placedAt width place given)
      (statements.filter Statement.retained) placed := by
  induction h with
  | done address labels => exact .nil
  | label hkind hnew hrest ih =>
    rwa [List.filter_cons_of_neg (by simp [Statement.retained, hkind])]
  | origin horigin hvalue hrest ih =>
    rwa [List.filter_cons_of_neg
      (by simp [Statement.retained, ((Statement.setsOrigin_iff _).mp horigin).2])]
  | retained hretained hrest ih =>
    rw [List.filter_cons_of_pos hretained]
    exact .cons ⟨_, rfl⟩ ih

/-- Without an origin the address moves on by half of every size. -/
theorem Places.last_eq {address last : UInt64} {labels sites : NameMap LabelSite}
    {statements placed : List Statement}
    (h : Places width strict address labels statements placed last sites)
    (horigins : ∀ statement ∈ statements, statement.setsOrigin = false) :
    last = address + (placed.map fun statement => statement.size / 2).sum := by
  induction h with
  | done address labels => rw [List.map_nil, List.sum_nil, UInt64.add_zero]
  | label hkind hnew hrest ih =>
    exact ih fun statement hmem => horigins statement (List.mem_cons_of_mem _ hmem)
  | origin horigin hvalue hrest ih =>
    rw [horigins _ List.mem_cons_self] at horigin
    cases horigin
  | retained hretained hrest ih =>
    rw [ih fun statement hmem => horigins statement (List.mem_cons_of_mem _ hmem), List.map_cons,
      List.sum_cons, UInt64.add_assoc]
    rfl

/-- A name that is not defined any more keeps its site. -/
theorem Places.get?_of_undefined {address last : UInt64} {labels sites : NameMap LabelSite}
    {statements placed : List Statement} {name : String}
    (h : Places width strict address labels statements placed last sites)
    (hname : ∀ statement ∈ statements, statement.defines name = false) :
    sites.get? name = labels.get? name := by
  induction h with
  | done address labels => rfl
  | @label address last labels sites statement rest placed hkind hnew hrest ih =>
    have hne : name ≠ statement.name.text := by
      intro heq
      have hdefines : statement.defines name = true :=
        (statement.defines_iff name).mpr ⟨hkind, heq.symm⟩
      rw [hname _ List.mem_cons_self] at hdefines
      cases hdefines
    rw [ih fun statement hmem => hname statement (List.mem_cons_of_mem _ hmem)]
    simp [hne]
  | origin horigin hvalue hrest ih =>
    exact ih fun statement hmem => hname statement (List.mem_cons_of_mem _ hmem)
  | retained hretained hrest ih =>
    exact ih fun statement hmem => hname statement (List.mem_cons_of_mem _ hmem)

/-- A label that is not defined again stands for the address that its definition is reached at. -/
theorem Places.get?_of_last_definition {address last : UInt64} {labels sites : NameMap LabelSite}
    {definition : Statement} {rest placed : List Statement}
    (h : Places width strict address labels (definition :: rest) placed last sites)
    (hkind : definition.kind = .label)
    (hlast : ∀ statement ∈ rest, statement.defines definition.name.text = false) :
    sites.get? definition.name.text = some ⟨address, definition.name.pos⟩ := by
  cases h with
  | label _ hnew hrest => simp [hrest.get?_of_undefined hlast]
  | origin horigin => exact absurd hkind ((Statement.setsOrigin_iff _).mp horigin).1
  | retained hretained => exact absurd hkind ((Statement.retained_iff _).mp hretained).1

/-- Labels take no place and no room. -/
theorem Places.of_labels {address last : UInt64} {labels sites : NameMap LabelSite}
    {statements placed : List Statement}
    (h : Places width strict address labels statements placed last sites)
    (hlabels : ∀ statement ∈ statements, statement.kind = .label) :
    placed = [] ∧ last = address := by
  induction h with
  | done address labels => exact ⟨rfl, rfl⟩
  | label hkind hnew hrest ih =>
    exact ih fun statement hmem => hlabels statement (List.mem_cons_of_mem _ hmem)
  | origin horigin =>
    exact absurd (hlabels _ List.mem_cons_self) ((Statement.setsOrigin_iff _).mp horigin).1
  | retained hretained =>
    exact absurd (hlabels _ List.mem_cons_self) ((Statement.retained_iff _).mp hretained).1

/-- What the labels stand for. -/
def addresses (sites : NameMap LabelSite) : NameMap UInt64 :=
  sites.map fun (name, site) => (name, site.address)

theorem get?_addresses (sites : NameMap LabelSite) (name : String) :
    (addresses sites).get? name = (sites.get? name).map LabelSite.address :=
  NameMap.get?_map LabelSite.address sites name

theorem resolveArgs_eq_ok_iff (labels : NameMap UInt64) (statement resolved : Statement) :
    resolveArgs labels statement = .ok resolved ↔
      ∃ args,
        List.Forall₂ (fun arg value => resolveArg labels arg = .ok value) statement.args args ∧
          resolved = { statement with args } := by
  rw [resolveArgs, bind_eq_ok_iff]
  simp only [mapM_eq_ok_iff]
  refine exists_congr fun args => and_congr_right fun _ => ?_
  exact ⟨fun h => (Except.ok.inj h).symm, fun h => h ▸ rfl⟩

/-- A layout is a placing from address zero on whose label references are replaced. -/
theorem resolve_eq_ok_iff (statements : List Statement) (layout : Layout) :
    resolve width strict statements = .ok layout ↔
      ∃ placed last sites, Places width strict 0 [] statements placed last sites ∧
        layout.labels = addresses sites ∧
        List.Forall₂ (fun given kept => resolveArgs layout.labels given = .ok kept)
          placed layout.statements := by
  rw [resolve, bind_eq_ok_iff]
  constructor
  · rintro ⟨⟨placed, sites⟩, hplace, h⟩
    obtain ⟨last, hplaces⟩ := exists_places _ _ _ _ _ hplace
    obtain ⟨resolved, hresolved, h⟩ := bind_eq_ok_iff.mp h
    cases h
    exact ⟨placed, last, sites, hplaces, rfl, (mapM_eq_ok_iff _ _ _).mp hresolved⟩
  · rintro ⟨placed, last, sites, hplaces, hlabels, hresolved⟩
    obtain ⟨resolved, labels⟩ := layout
    cases hlabels
    refine ⟨(placed, sites), hplaces.place_eq, bind_eq_ok_iff.mpr ⟨resolved, ?_, rfl⟩⟩
    exact (mapM_eq_ok_iff _ _ _).mpr hresolved

end Layout

end WordAsm
