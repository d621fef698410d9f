import WordAsm.Image
import WordAsm.Proofs.BuiltinSet
import WordAsm.Proofs.Placement
import WordAsm.Proofs.Words

/-! Layout and image agree. The size that a statement is placed with is the length of its block in
the image, so the distance of two addresses is half the distance of the blocks, as long as no origin
and no data of an odd size stand between them. -/

namespace WordAsm

/-- The size of data depends on the slots of its arguments alone. -/
theorem Directive.dataSize_congr (slotSize : Nat) (args others : List Token)
    (h : List.Forall₂ (fun arg other => slots other = slots arg) args others) :
    dataSize slotSize others = dataSize slotSize args := by
  induction h with
  | nil => rfl
  | cons hfirst _ ih => rw [dataSize, dataSize, ih, hfirst]

theorem Directive.isOrigin_of_slotSize? (mnemonic : String) (size : Nat)
    (h : slotSize? mnemonic = some size) : isOrigin mnemonic = false := by
  rw [isOrigin, beq_eq_false_iff_ne]
  intro horg
  rw [horg] at h
  cases h

namespace Layout

/-- A number takes one slot like the label reference that it replaces. -/
theorem slots_of_resolveArg (labels : NameMap UInt64) (arg value : Token)
    (h : resolveArg labels arg = .ok value) : Directive.slots value = Directive.slots arg := by
  rw [resolveArg] at h
  split at h
  · rename_i hkind
    split at h
    · cases h
      simp [Directive.slots, Token.ofValue, hkind]
    · cases h
  · cases h
    rfl

end Layout

namespace Image

theorem slotValues_eq_ok_iff (mnemonic : String) (arg : Token) (values : List UInt64) :
    slotValues mnemonic arg = .ok values ↔
      (arg.kind = .number ∧ ∃ value, arg.value = .ok value ∧ values = [value]) ∨
      (arg.kind = .string ∧ values = arg.text.toList.map fun c => UInt64.ofNat c.toNat) := by
  unfold slotValues
  split
  · rename_i hkind
    cases hvalue : arg.value with
    | error fault => simp [hkind]
    | ok value => simp [hkind, eq_comm]
  · rename_i hkind
    simp [hkind, eq_comm]
  · rename_i hkind
    simp [hkind]
  · rename_i hnumber hstring _
    exact ⟨nofun, fun h => h.elim (fun h => absurd h.1 hnumber) fun h => absurd h.1 hstring⟩

theorem length_slotValues (mnemonic : String) (arg : Token) (values : List UInt64)
    (h : slotValues mnemonic arg = .ok values) : values.length = Directive.slots arg := by
  rcases (slotValues_eq_ok_iff _ _ _).mp h with ⟨hkind, value, -, rfl⟩ | ⟨hkind, rfl⟩
  · rw [Directive.slots, hkind, if_neg (by decide)]
    rfl
  · rw [Directive.slots, if_pos hkind, List.length_map, String.length_toList]

theorem length_flatten_slotValues (mnemonic : String) (slotSize : Nat) (args : List Token)
    (values : List (List UInt64))
    (h : List.Forall₂ (fun arg value => slotValues mnemonic arg = .ok value) args values) :
    values.flatten.length * slotSize = Directive.dataSize slotSize args := by
  induction h with
  | nil => exact Nat.zero_mul slotSize
  | cons hfirst _ ih =>
    rw [List.flatten_cons, List.length_append, Nat.add_mul, ih, length_slotValues _ _ _ hfirst,
      Directive.dataSize]

theorem statementBytes_of_data (set : InstructionSet) (statement : Statement) (slotSize : Nat)
    (hkind : statement.kind ≠ .label)
    (hslot : Directive.slotSize? statement.mnemonic = some slotSize) :
    statementBytes set statement = dataBytes slotSize statement := by
  have horigin := Directive.isOrigin_of_slotSize? _ slotSize hslot
  rw [statementBytes, if_neg hkind, horigin, if_neg Bool.false_ne_true, hslot]

/-- The bytes of a data directive are those of its values. -/
theorem dataBytes_eq_ok_iff (slotSize : Nat) (statement : Statement) (bytes : List UInt8) :
    dataBytes slotSize statement = .ok bytes ↔
      ∃ values, List.Forall₂ (fun arg value => slotValues statement.mnemonic arg = .ok value)
        statement.args values ∧ bytes = values.flatten.flatMap (Word.toBytes slotSize) := by
  rw [dataBytes, bind_eq_ok_iff]
  simp only [mapM_eq_ok_iff, Word.toBytes_and_mask]
  refine exists_congr fun values => and_congr_right fun _ => ?_
  constructor
  · intro h
    exact (Except.ok.inj h).symm
  · rintro rfl
    rfl

/-- A data directive fills the slots that it was placed with. -/
theorem length_dataBytes (slotSize : Nat) (statement : Statement) (block : List UInt8)
    (h : dataBytes slotSize statement = .ok block) :
    block.length = Directive.dataSize slotSize statement.args := by
  obtain ⟨values, hvalues, rfl⟩ := (dataBytes_eq_ok_iff ..).mp h
  rw [length_flatMap_of_forall _ slotSize _ fun value _ => Word.toBytes_length slotSize value]
  exact length_flatten_slotValues _ _ _ _ hvalues

theorem length_instructionBytes (set : InstructionSet) (statement : Statement) (block : List UInt8)
    (h : instructionBytes set statement = .ok block) : block.length = set.width / 8 := by
  rw [instructionBytes] at h
  obtain ⟨word, _, h⟩ := bind_eq_ok_iff.mp h
  cases h
  exact Word.toBytes_length _ _

/-- The bytes of a statement whose labels are known. -/
def emit (set : InstructionSet) (labels : NameMap UInt64) (statement : Statement) :
    Except Error (List UInt8) :=
  Layout.resolveArgs labels statement >>= statementBytes set

/-- The place of a statement does not matter for its bytes. -/
theorem emit_placedAt (set : InstructionSet) (labels : NameMap UInt64) (width : Nat)
    (place : UInt64) (statement : Statement) :
    emit set labels (Layout.placedAt width place statement) = emit set labels statement := by
  simp only [emit, Layout.resolveArgs, bind_assoc, pure_bind]
  rfl

/-- The block of a statement is as long as its place, up to the range of addresses. -/
theorem sizeOf_eq_length (set : InstructionSet) (labels : NameMap UInt64)
    (statement : Statement) (block : List UInt8) (h : emit set labels statement = .ok block) :
    Layout.sizeOf set.width statement = UInt64.ofNat block.length := by
  obtain ⟨kept, hkept, hblock⟩ := bind_eq_ok_iff.mp h
  obtain ⟨args, hargs, rfl⟩ := (Layout.resolveArgs_eq_ok_iff _ _ _).mp hkept
  rw [statementBytes] at hblock
  -- labels and origins have no block, data has its slots and all else has a word
  split at hblock
  · cases hblock
  split at hblock
  · cases hblock
  split at hblock
  · rename_i slotSize hslot
    change Directive.slotSize? statement.mnemonic = some slotSize at hslot
    have hslots := hargs.imp fun arg value => Layout.slots_of_resolveArg labels arg value
    rw [length_dataBytes _ _ _ hblock, Directive.dataSize_congr slotSize _ _ hslots,
      Layout.sizeOf, hslot]
  · rename_i hslot
    change Directive.slotSize? statement.mnemonic = none at hslot
    have heven : set.width / 16 * 2 = set.width / 8 := by
      have := set.valid.width_mod
      omega
    rw [length_instructionBytes _ _ _ hblock, Layout.sizeOf, hslot]
    exact congrArg UInt64.ofNat heven

/-- An image is made of one block for each statement. -/
theorem generate_eq_ok_iff (set : InstructionSet) (statements : List Statement)
    (code : List UInt8) :
    generate set statements = .ok code ↔
      ∃ blocks, List.Forall₂ (fun statement block => statementBytes set statement = .ok block)
        statements blocks ∧ code = blocks.flatten := by
  rw [generate, bind_eq_ok_iff]
  simp only [mapM_eq_ok_iff]
  refine exists_congr fun blocks => and_congr_right fun _ => ?_
  exact ⟨fun h => (Except.ok.inj h).symm, fun h => h ▸ rfl⟩

/-- The position of a block in the image. -/
def offset (blocks : List (List UInt8)) (index : Nat) : Nat :=
  (blocks.take index).flatten.length

/-- Blocks from `first` up to `last` take the bytes between their positions. -/
theorem offset_sub (blocks : List (List UInt8)) (first last : Nat) (h : first ≤ last) :
    offset blocks last - offset blocks first =
      (((blocks.take last).drop first).map List.length).sum := by
  have hsplit : (blocks.take last).take first ++ (blocks.take last).drop first = blocks.take last :=
    List.take_append_drop first (blocks.take last)
  rw [List.take_take, Nat.min_eq_left h] at hsplit
  have hlength := congrArg (fun list => list.flatten.length) hsplit
  simp only [List.flatten_append, List.length_append] at hlength
  rw [offset, offset, ← hlength, Nat.add_sub_cancel_left, List.length_flatten]

end Image

/-- Half of a sum of even sizes, in addresses. -/
theorem sum_half_sizes (sizes : List UInt64) (h : ∀ size ∈ sizes, size.toNat % 2 = 0) :
    (sizes.map (· / 2)).sum = UInt64.ofNat ((sizes.map UInt64.toNat).sum / 2) := by
  induction sizes with
  | nil => rfl
  | cons size sizes ih =>
    have heven : size.toNat % 2 = 0 := h size List.mem_cons_self
    have hhalf : size / 2 = UInt64.ofNat (size.toNat / 2) := by
      apply UInt64.toNat_inj.mp
      have hlt : size.toNat / 2 < UInt64.size := (Nat.div_le_self _ _).trans_lt size.toNat_lt
      rw [UInt64.toNat_div, UInt64.toNat_ofNat_of_lt' hlt]
      rfl
    rw [List.map_cons, List.sum_cons, List.map_cons, List.sum_cons,
      ih fun other hmem => h other (List.mem_cons_of_mem _ hmem), hhalf, ← UInt64.ofNat_add]
    congr 1
    omega

namespace Layout

variable {width : Nat} {strict : Bool}

theorem size_of_resolveArgs (labels : NameMap UInt64) (given kept : List Statement)
    (h : List.Forall₂ (fun given kept => resolveArgs labels given = .ok kept) given kept) :
    kept.map Statement.size = given.map Statement.size := by
  induction h with
  | nil => rfl
  | cons hfirst _ ih =>
    obtain ⟨args, -, rfl⟩ := (resolveArgs_eq_ok_iff _ _ _).mp hfirst
    rw [List.map_cons, List.map_cons, ih]

/-- Instructions take whole words, so only data can be of an odd size. -/
theorem even_sizeOf (width : Nat) (hwidth : width ≤ 64) (statement : Statement)
    (h : Directive.slotSize? statement.mnemonic = none) :
    (sizeOf width statement).toNat % 2 = 0 := by
  have hlt : width / 16 * 2 < UInt64.size := by
    have : UInt64.size = 18446744073709551616 := rfl
    omega
  rw [sizeOf, h]
  change (UInt64.ofNat (width / 16 * 2)).toNat % 2 = 0
  rw [UInt64.toNat_ofNat_of_lt' hlt, Nat.mul_mod_left]

/-- Without an origin and without odd sizes the address moves on by half of the bytes. -/
theorem Places.distance {address last : UInt64} {labels sites : NameMap LabelSite}
    {statements placed : List Statement}
    (h : Places width strict address labels statements placed last sites)
    (horigins : ∀ statement ∈ statements, statement.setsOrigin = false)
    (heven : ∀ size ∈ placed.map Statement.size, size.toNat % 2 = 0) :
    last - address = UInt64.ofNat (((placed.map Statement.size).map UInt64.toNat).sum / 2) := by
  rw [h.last_eq horigins, UInt64.add_comm, UInt64.add_sub_cancel, ← sum_half_sizes _ heven,
    List.map_map]
  rfl

/-- How many of the statements take a place. -/
def rank (statements : List Statement) : Nat :=
  statements.countP Statement.retained

theorem Places.length_placed {address last : UInt64} {labels sites : NameMap LabelSite}
    {statements placed : List Statement}
    (h : Places width strict address labels statements placed last sites) :
    placed.length = rank statements := by
  rw [rank, List.countP_eq_length_filter, h.placed_retained.length_eq]

theorem Places.of_retained {address last : UInt64} {labels sites : NameMap LabelSite}
    {statement : Statement} {rest placed : List Statement}
    (h : Places width strict address labels (statement :: rest) placed last sites)
    (hretained : statement.retained = true) :
    ∃ later, placed = placedAt width address statement :: later := by
  cases h with
  | label hkind => exact absurd hkind ((Statement.retained_iff _).mp hretained).1
  | origin horigin =>
    obtain ⟨-, horigin⟩ := (Statement.setsOrigin_iff _).mp horigin
    rw [((Statement.retained_iff _).mp hretained).2] at horigin
    cases horigin
  | retained => exact ⟨_, rfl⟩

/-- A retained statement is found behind what was placed before it. -/
theorem Places.getElem?_length {address last : UInt64} {labels sites : NameMap LabelSite}
    {statement : Statement} {rest placed : List Statement}
    (h : Places width strict address labels (statement :: rest) placed last sites)
    (hretained : statement.retained = true) (earlier : List Statement) :
    (earlier ++ placed)[earlier.length]? = some (placedAt width address statement) := by
  obtain ⟨later, rfl⟩ := h.of_retained hretained
  rw [List.getElem?_append_right (Nat.le_refl _), Nat.sub_self]
  rfl

/-- What a layout and the blocks of an image have to do with one another and with the statements
that were laid out. -/
structure Agrees (set : InstructionSet) (statements : List Statement) (layout : Layout)
    (blocks : List (List UInt8)) : Prop where
  /-- The retained statements are laid out in order. -/
  kept : List.Forall₂ (fun given kept => kept.kind = given.kind ∧ kept.name = given.name)
    (statements.filter Statement.retained) layout.statements
  /-- Each of them has one block, of the size that it was laid out with. -/
  sizes : List.Forall₂ (fun kept block => Image.statementBytes set kept = .ok block ∧
    block.length = kept.size.toNat) layout.statements blocks
  /-- Addresses are as far apart as the blocks, in words. -/
  distances : ∀ (before : List Statement) (first : Statement) (between : List Statement)
    (second : Statement) (after : List Statement),
    statements = before ++ (first :: between ++ second :: after) →
    first.retained = true → second.retained = true →
    (∀ statement ∈ between, statement.setsOrigin = false) →
    (∀ kept ∈ (layout.statements.take (rank (before ++ first :: between))).drop (rank before),
      (Directive.slotSize? kept.mnemonic).isSome = true → kept.size.toNat % 2 = 0) →
    ∃ one two, layout.statements[rank before]? = some one ∧
      layout.statements[rank (before ++ first :: between)]? = some two ∧
      two.address - one.address = UInt64.ofNat
        ((Image.offset blocks (rank (before ++ first :: between)) -
          Image.offset blocks (rank before)) / 2)
  /-- Every label of the table is defined somewhere. -/
  defined : ∀ name value, layout.labels.get? name = some value →
    ∃ statement ∈ statements, statement.defines name = true
  /-- A label stands for the address of what is retained next behind its last definition. -/
  labels : ∀ (before : List Statement) (definition : Statement) (after : List Statement),
    statements = before ++ definition :: after →
    definition.kind = .label →
    (∀ statement ∈ after, statement.defines definition.name.text = false) →
    ∃ value, layout.labels.get? definition.name.text = some value ∧
      ∀ (between : List Statement) (next : Statement) (rest : List Statement),
        after = between ++ next :: rest → next.retained = true →
        (∀ statement ∈ between, statement.retained = false ∧ statement.setsOrigin = false) →
        ∃ kept, layout.statements[rank before]? = some kept ∧ kept.address = value

section Parts

variable {statements placed : List Statement} {last : UInt64} {sites : NameMap LabelSite}
  {layout : Layout}

theorem kept_of_places (hplaces : Places width strict 0 [] statements placed last sites)
    (hkept : List.Forall₂ (fun given kept => resolveArgs layout.labels given = .ok kept)
      placed layout.statements) :
    List.Forall₂ (fun given kept => ∃ place,
      resolveArgs layout.labels (placedAt width place given) = .ok kept)
      (statements.filter Statement.retained) layout.statements := by
  have hplaced := hplaces.placed_retained
  clear hplaces
  generalize statements.filter Statement.retained = given at hplaced ⊢
  generalize layout.statements = kept at hkept ⊢
  induction hplaced generalizing kept with
  | nil =>
    cases hkept
    exact .nil
  | cons hfirst _ ih =>
    obtain ⟨place, rfl⟩ := hfirst
    cases hkept with
    | cons hresolve hrest => exact .cons ⟨place, hresolve⟩ (ih _ hrest)

/-- Blocks that together stay in the range of addresses have the sizes laid out. -/
theorem sizes_of_places (set : InstructionSet) (given kept : List Statement)
    (blocks : List (List UInt8)) (hsize : blocks.flatten.length < 2 ^ 64)
    (hkept : List.Forall₂ (fun given kept => ∃ place,
      resolveArgs layout.labels (placedAt set.width place given) = .ok kept) given kept)
    (hblocks : List.Forall₂ (fun statement block => Image.statementBytes set statement = .ok block)
      kept blocks) :
    List.Forall₂ (fun kept block => Image.statementBytes set kept = .ok block ∧
      block.length = kept.size.toNat) kept blocks := by
  induction hblocks generalizing given with
  | nil => exact .nil
  | @cons statement block _ blocks hblock _ ih =>
    -- the image is in the range of words, and so is each block on its own
    rw [List.flatten_cons, List.length_append] at hsize
    cases hkept with
    | @cons original _ _ _ hfirst hrest =>
      obtain ⟨place, hresolve⟩ := hfirst
      refine .cons ⟨hblock, ?_⟩ (ih _ (by omega) hrest)
      have hemit := Image.emit_placedAt set layout.labels set.width place original
      have hlength := Image.sizeOf_eq_length set layout.labels original block
        (hemit.symm.trans (bind_eq_ok_iff.mpr ⟨statement, hresolve, hblock⟩))
      obtain ⟨args, -, rfl⟩ := (resolveArgs_eq_ok_iff _ _ _).mp hresolve
      dsimp only
      rw [size_placedAt, hlength]
      exact (UInt64.toNat_ofNat_of_lt' (by change _ < 2 ^ 64; omega)).symm

/-- Only data can be of an odd size. -/
theorem even_of_kept (hwidth : width ≤ 64) (given kept : List Statement)
    (hkept : List.Forall₂ (fun given kept => ∃ place,
      resolveArgs layout.labels (placedAt width place given) = .ok kept) given kept)
    (statement : Statement) (hmem : statement ∈ kept)
    (heven : (Directive.slotSize? statement.mnemonic).isSome = true →
      statement.size.toNat % 2 = 0) : statement.size.toNat % 2 = 0 := by
  cases hslot : Directive.slotSize? statement.mnemonic with
  | some slotSize => exact heven (by rw [hslot]; rfl)
  | none =>
    obtain ⟨index, hindex⟩ := List.mem_iff_getElem?.mp hmem
    obtain ⟨original, -, place, hresolve⟩ := forall₂_getElem? hkept.flip index statement hindex
    obtain ⟨args, -, rfl⟩ := (resolveArgs_eq_ok_iff _ _ _).mp hresolve
    dsimp only
    rw [size_placedAt]
    exact even_sizeOf width hwidth original hslot

/-- A retained statement is laid out behind what was placed before it, at the address reached
there. -/
theorem address_of_kept {place : UInt64} {known : NameMap LabelSite} {statement : Statement}
    {rest earlier later : List Statement}
    (hkept : List.Forall₂ (fun given kept => resolveArgs layout.labels given = .ok kept)
      (earlier ++ later) layout.statements)
    (hlater : Places width strict place known (statement :: rest) later last sites)
    (hretained : statement.retained = true) :
    ∃ kept, layout.statements[earlier.length]? = some kept ∧ kept.address = place := by
  obtain ⟨kept, hindex, hresolve⟩ :=
    forall₂_getElem? hkept _ _ (hlater.getElem?_length hretained earlier)
  obtain ⟨args, -, rfl⟩ := (resolveArgs_eq_ok_iff _ _ _).mp hresolve
  exact ⟨_, hindex, rfl⟩

/-- The statements laid out behind `earlier` and before `behind` have the sizes of those placed
there. -/
theorem sizes_between {earlier segment behind : List Statement}
    (hkept : List.Forall₂ (fun given kept => resolveArgs layout.labels given = .ok kept)
      (earlier ++ (segment ++ behind)) layout.statements) :
    ((layout.statements.take (earlier ++ segment).length).drop earlier.length).map
      Statement.size = segment.map Statement.size := by
  rw [List.map_drop, List.map_take, size_of_resolveArgs _ _ _ hkept, ← List.map_take,
    ← List.map_drop, ← List.append_assoc, List.take_left, List.drop_left]

theorem bytes_between (blocks : List (List UInt8))
    (hblocks : blocks.map List.length = (layout.statements.map Statement.size).map UInt64.toNat)
    {earlier segment behind : List Statement}
    (hkept : List.Forall₂ (fun given kept => resolveArgs layout.labels given = .ok kept)
      (earlier ++ (segment ++ behind)) layout.statements) :
    Image.offset blocks (earlier ++ segment).length - Image.offset blocks earlier.length =
      ((segment.map Statement.size).map UInt64.toNat).sum := by
  rw [Image.offset_sub _ _ _ (by rw [List.length_append]; exact Nat.le_add_right _ _),
    List.map_drop, List.map_take, hblocks, ← List.map_take, ← List.map_take, ← List.map_drop,
    ← List.map_drop, sizes_between hkept]

theorem distance_of_places (hwidth : width ≤ 64) (blocks : List (List UInt8))
    (hplaces : Places width strict 0 [] statements placed last sites)
    (hkept : List.Forall₂ (fun given kept => resolveArgs layout.labels given = .ok kept)
      placed layout.statements)
    (hblocks : blocks.map List.length =
      (layout.statements.map Statement.size).map UInt64.toNat)
    (before between after : List Statement) (first second : Statement)
    (hsplit : statements = before ++ (first :: between ++ second :: after))
    (hfirst : first.retained = true) (hsecond : second.retained = true)
    (horigins : ∀ statement ∈ between, statement.setsOrigin = false)
    (heven : ∀ kept ∈ (layout.statements.take (rank (before ++ first :: between))).drop
      (rank before), (Directive.slotSize? kept.mnemonic).isSome = true →
        kept.size.toNat % 2 = 0) :
    ∃ one two, layout.statements[rank before]? = some one ∧
      layout.statements[rank (before ++ first :: between)]? = some two ∧
      two.address - one.address = UInt64.ofNat
        ((Image.offset blocks (rank (before ++ first :: between)) -
          Image.offset blocks (rank before)) / 2) := by
  have hresolved := kept_of_places hplaces hkept
  rw [hsplit] at hplaces
  obtain ⟨earlier, known, start, later, hearlier, hlater, rfl⟩ := hplaces.of_append before
  obtain ⟨segment, known', stop, behind, hsegment, hbehind, rfl⟩ :=
    hlater.of_append (first :: between)
  have hi : rank before = earlier.length := hearlier.length_placed.symm
  have hj : rank (before ++ first :: between) = (earlier ++ segment).length := by
    rw [List.length_append, hearlier.length_placed, hsegment.length_placed]
    exact List.countP_append
  rw [hi, hj] at heven ⊢
  -- the statements from the first one up to the second one are those of `segment`
  have hsegmentEven : ∀ size ∈ segment.map Statement.size, size.toNat % 2 = 0 := by
    rw [← sizes_between hkept]
    intro size hsize
    obtain ⟨kept, hmem, rfl⟩ := List.mem_map.mp hsize
    exact even_of_kept hwidth _ _ hresolved kept
      (List.mem_of_mem_take (List.mem_of_mem_drop hmem)) (heven kept hmem)
  have hsegmentOrigins : ∀ statement ∈ first :: between, statement.setsOrigin = false := by
    intro statement hmem
    rcases List.mem_cons.mp hmem with rfl | hmem
    · obtain ⟨-, horigin⟩ := statement.retained_iff.mp hfirst
      rw [Statement.setsOrigin, horigin, Bool.and_false]
    · exact horigins statement hmem
  obtain ⟨one, hone, rfl⟩ := address_of_kept hkept hlater hfirst
  obtain ⟨two, htwo, rfl⟩ :=
    address_of_kept ((List.append_assoc _ _ _).symm ▸ hkept) hbehind hsecond
  refine ⟨one, two, hone, htwo, ?_⟩
  rw [bytes_between blocks hblocks hkept]
  exact hsegment.distance hsegmentOrigins hsegmentEven

theorem label_of_places (hplaces : Places width strict 0 [] statements placed last sites)
    (hlabels : layout.labels = addresses sites)
    (hkept : List.Forall₂ (fun given kept => resolveArgs layout.labels given = .ok kept)
      placed layout.statements)
    (before after : List Statement) (definition : Statement)
    (hsplit : statements = before ++ definition :: after) (hkind : definition.kind = .label)
    (hlast : ∀ statement ∈ after, statement.defines definition.name.text = false) :
    ∃ value, layout.labels.get? definition.name.text = some value ∧
      ∀ (between : List Statement) (next : Statement) (rest : List Statement),
        after = between ++ next :: rest → next.retained = true →
        (∀ statement ∈ between, statement.retained = false ∧ statement.setsOrigin = false) →
        ∃ kept, layout.statements[rank before]? = some kept ∧ kept.address = value := by
  rw [hsplit] at hplaces
  obtain ⟨earlier, known, place, later, hearlier, hlater, rfl⟩ := hplaces.of_append before
  have hsite := hlater.get?_of_last_definition hkind hlast
  refine ⟨place, by rw [hlabels, get?_addresses, hsite]; rfl, ?_⟩
  intro between next rest hafter hnext hbetween
  -- what stands between takes no room, so the next statement is placed where the label is
  have hnone : ∀ statement ∈ definition :: between, statement.kind = .label := by
    intro statement hmem
    rcases List.mem_cons.mp hmem with rfl | hmem
    · exact hkind
    · obtain ⟨hretained, horigin⟩ := hbetween statement hmem
      by_contra hne
      simp only [Statement.retained, Statement.setsOrigin, ne_eq, hne, not_false_eq_true,
        decide_true, Bool.true_and] at hretained horigin
      rw [horigin] at hretained
      cases hretained
  rw [hafter, ← List.cons_append] at hlater
  obtain ⟨taken, known', stop, behind, htaken, hbehind, rfl⟩ := hlater.of_append _
  obtain ⟨rfl, rfl⟩ := htaken.of_labels hnone
  rw [← hearlier.length_placed]
  exact address_of_kept hkept hbehind hnext

end Parts

end Layout

/-- Layout and image agree for every set and every program with an image of less than `2 ^ 64`
bytes. -/
theorem layout_agrees_with_image (set : InstructionSet) (strict : Bool)
    (statements : List Statement) (layout : Layout) (code : List UInt8)
    (hlayout : Layout.resolve set.width strict statements = .ok layout)
    (hcode : Image.generate set layout.statements = .ok code) (hsize : code.length < 2 ^ 64) :
    ∃ blocks, code = blocks.flatten ∧ layout.Agrees set statements blocks := by
  obtain ⟨placed, last, sites, hplaces, hlabels, hkept⟩ :=
    (Layout.resolve_eq_ok_iff _ _).mp hlayout
  obtain ⟨blocks, hblocks, rfl⟩ := (Image.generate_eq_ok_iff _ _ _).mp hcode
  have hresolved := Layout.kept_of_places hplaces hkept
  have hsizes := Layout.sizes_of_places set _ _ _ hsize hresolved hblocks
  have hlengths : blocks.map List.length =
      (layout.statements.map Statement.size).map UInt64.toNat := by
    rw [List.map_map]
    refine Eq.mp (congrFun₂ List.forall₂_eq_eq_eq _ _) ?_
    rw [List.forall₂_map_left_iff, List.forall₂_map_right_iff]
    exact hsizes.flip.imp fun block kept h => h.2
  refine ⟨blocks, rfl, ⟨?_, hsizes, ?_, ?_, ?_⟩⟩
  · refine hresolved.imp fun given kept hkept => ?_
    obtain ⟨place, hresolve⟩ := hkept
    obtain ⟨args, -, rfl⟩ := (Layout.resolveArgs_eq_ok_iff _ _ _).mp hresolve
    exact ⟨rfl, rfl⟩
  · intro before first between second after hsplit hfirst hsecond horigins heven
    exact Layout.distance_of_places set.valid.width_le blocks hplaces hkept hlengths before between
      after first second hsplit hfirst hsecond horigins heven
  · -- the table starts empty, so a name that nothing defines is not in it
    intro name value hvalue
    by_contra hnone
    have hundefined : ∀ statement ∈ statements, statement.defines name = false := by
      intro statement hmem
      exact Bool.eq_false_iff.mpr fun hdefines => hnone ⟨statement, hmem, hdefines⟩
    rw [hlabels, Layout.get?_addresses, hplaces.get?_of_undefined hundefined] at hvalue
    cases hvalue
  · intro before definition after hsplit hkind hlast
    exact Layout.label_of_places hplaces hlabels hkept before after definition hsplit hkind hlast

/-- A string of two characters between two labels, the second of which is stored behind it. -/
def labelledString : List Statement :=
  let name (text : String) : Token := .plain .identifier text (.start "")
  [.unplaced .label (name "text") [],
    .unplaced .instruction (name "dw") [.plain .string "ab" (.start "")],
    .unplaced .label (name "end") [],
    .unplaced .instruction (name "dw") [name "end"]]

theorem labelledString_agrees :
    ∃ layout blocks, Layout.resolve 16 true labelledString = .ok layout ∧
      [0, 97, 0, 98, 0, 2] = blocks.flatten ∧
      layout.Agrees Zirc16.table labelledString blocks := by
  have himage : (Layout.resolve 16 true labelledString >>= fun layout =>
      Image.generate Zirc16.table layout.statements) = .ok [0, 97, 0, 98, 0, 2] := by
    decide +kernel
  obtain ⟨layout, hlayout, hcode⟩ := bind_eq_ok_iff.mp himage
  obtain ⟨blocks, hblocks, hagrees⟩ := layout_agrees_with_image Zirc16.table true labelledString
    layout _ hlayout hcode (by decide)
  exact ⟨layout, blocks, hlayout, hblocks, hagrees⟩

end WordAsm
