import WordAsm.Proofs.Checks
import WordAsm.Proofs.NameMaps
import WordAsm.Pseudo.Expansion

/-! Expansion with other arguments. Pseudo-instructions look at the arguments of a call only to
derive fields from them, so calls whose arguments are related expand to statements whose arguments
are related, in as many rounds, as long as derived fields of related arguments are related and what
templates say of their own is related to itself. -/

namespace WordAsm

/-- The statements differ in their arguments only, and these are related one by one. -/
def Statement.ArgsRelated (R : Token → Token → Prop) (given other : Statement) : Prop :=
  ∃ args, List.Forall₂ R given.args args ∧ other = { given with args }

/-- The argument of a template is neither a formal nor a derived field, so it stands for itself. -/
def Pseudo.Free (pseudo : Pseudo) (arg : Token) : Prop :=
  arg.kind = .identifier → arg.text ∉ pseudo.params ∧ arg.text ∉ pseudo.fields.names

/-- Relations of arguments and of statements that expansion carries over from one program to
another. -/
structure PseudoTable.Simulates (table : PseudoTable) (R : Token → Token → Prop)
    (S : Statement → Statement → Prop) : Prop where
  derive : ∀ name field actual other derived, R actual other →
    Pseudo.derive name field actual = .ok derived →
    ∃ derived', Pseudo.derive name field other = .ok derived' ∧ R derived derived'
  free : ∀ pseudo ∈ table, ∀ statement ∈ pseudo.body, ∀ arg ∈ statement.args, pseudo.Free arg →
    ∀ pos, R { arg with pos } { arg with pos }
  absent : ∀ pseudo ∈ table, ∀ entry ∈ pseudo.fields, entry.2.param ∉ pseudo.params →
    R (.plain .identifier "" .nowhere) (.plain .identifier "" .nowhere)
  expands : ∀ given other, S given other → table.expands other = table.expands given
  call : ∀ given other, S given other → table.expands given = true → given.ArgsRelated R other
  instruction : ∀ given other, given.kind = .instruction → given.ArgsRelated R other →
    S given other

namespace Pseudo

variable {R : Token → Token → Prop} {S : Statement → Statement → Prop} {table : PseudoTable}

/-- The entries have one name and related arguments. -/
def EntryRelated (R : Token → Token → Prop) (entry other : String × Token) : Prop :=
  entry.1 = other.1 ∧ R entry.2 other.2

theorem getD_related {bound other : NameMap Token}
    (h : List.Forall₂ (EntryRelated R) bound other) (name : String) (default : Token)
    (hdefault : name ∉ bound.names → R default default) :
    R ((bound.get? name).getD default) ((other.get? name).getD default) := by
  induction h with
  | nil => exact hdefault List.not_mem_nil
  | cons hfirst _ ih =>
    rw [NameMap.get?_cons, NameMap.get?_cons, ← hfirst.1]
    split
    · exact hfirst.2
    · rename_i hname
      apply ih
      intro hrest
      exact hdefault fun hmem => (List.mem_cons.mp hmem).elim hname hrest

/-- A call gives an argument to every formal. -/
theorem names_bindFormals (pseudo : Pseudo) (args : List Token)
    (harity : pseudo.arity = args.length) : (pseudo.bindFormals args).names = pseudo.params :=
  List.map_fst_zip (Nat.le_of_eq harity)

theorem names_bindFields (pseudo : Pseudo) (formals fields : NameMap Token)
    (h : pseudo.bindFields formals = .ok fields) : fields.names = pseudo.fields.names := by
  rw [bindFields, mapM_eq_ok_iff] at h
  generalize pseudo.fields = entries at h
  induction h with
  | nil => rfl
  | cons hfirst _ ih =>
    obtain ⟨derived, -, hfirst⟩ := bind_eq_ok_iff.mp hfirst
    cases hfirst
    exact congrArg _ ih

theorem bindFormals_related (pseudo : Pseudo) {args other : List Token}
    (h : List.Forall₂ R args other) :
    List.Forall₂ (EntryRelated R) (pseudo.bindFormals args) (pseudo.bindFormals other) := by
  rw [bindFormals, bindFormals]
  generalize pseudo.params = params
  induction h generalizing params with
  | nil => exact (List.zip_nil_right (l := params)) ▸ .nil
  | cons hfirst _ ih =>
    cases params with
    | nil => exact .nil
    | cons param params => exact .cons ⟨rfl, hfirst⟩ (ih params)

theorem bindFields_simulates (hsim : table.Simulates R S) (pseudo : Pseudo)
    (hpseudo : pseudo ∈ table) {formals other : NameMap Token}
    (hnames : formals.names = pseudo.params)
    (h : List.Forall₂ (EntryRelated R) formals other) (fields : NameMap Token)
    (hfields : pseudo.bindFields formals = .ok fields) :
    ∃ fields', pseudo.bindFields other = .ok fields' ∧
      List.Forall₂ (EntryRelated R) fields fields' := by
  have hsame : List.Forall₂ (fun entry other => entry ∈ pseudo.fields ∧ entry = other)
      pseudo.fields pseudo.fields :=
    List.forall₂_same.mpr fun entry hentry => ⟨hentry, rfl⟩
  refine mapM_related _ _ ?_ hsame fields hfields
  rintro ⟨name, field⟩ _ entry ⟨hfield, rfl⟩ hentry
  obtain ⟨derived, hderived, hentry⟩ := bind_eq_ok_iff.mp hentry
  cases hentry
  have hactual := getD_related h field.param (.plain .identifier "" .nowhere) fun hparam =>
    hsim.absent pseudo hpseudo _ hfield (hnames ▸ hparam)
  obtain ⟨derived', hderived', hrelated⟩ := hsim.derive _ _ _ _ _ hactual hderived
  exact ⟨(name, derived'), bind_eq_ok_iff.mpr ⟨derived', hderived', rfl⟩, rfl, hrelated⟩

theorem substitute_related {bound other : NameMap Token}
    (h : List.Forall₂ (EntryRelated R) bound other) (pos : Position) (arg : Token)
    (hfree : (arg.kind = .identifier → arg.text ∉ bound.names) →
      R { arg with pos } { arg with pos }) :
    R (substitute bound pos arg) (substitute other pos arg) := by
  rw [substitute, substitute]
  split
  · exact getD_related h arg.text _ fun hname => hfree fun _ => hname
  · rename_i hkind
    exact hfree fun hidentifier => absurd hidentifier hkind

theorem instantiate_simulates (hsim : table.Simulates R S) (pseudo : Pseudo)
    (hpseudo : pseudo ∈ table) (call other : Statement) (harity : pseudo.arity = call.args.length)
    (h : call.ArgsRelated R other) (statements : List Statement)
    (hcall : pseudo.instantiate call = .ok statements) :
    ∃ statements', pseudo.instantiate other = .ok statements' ∧
      List.Forall₂ S statements statements' := by
  obtain ⟨args, hargs, rfl⟩ := h
  obtain ⟨fields, hfields, hcall⟩ := bind_eq_ok_iff.mp hcall
  cases hcall
  have hformals := bindFormals_related pseudo hargs
  have hnames := names_bindFormals pseudo call.args harity
  obtain ⟨fields', hfields', hrelated⟩ :=
    bindFields_simulates hsim pseudo hpseudo hnames hformals fields hfields
  refine ⟨_, bind_eq_ok_iff.mpr ⟨fields', hfields', rfl⟩, ?_⟩
  rw [List.forall₂_map_left_iff, List.forall₂_map_right_iff, List.forall₂_same]
  intro statement hstatement
  refine hsim.instruction _ _ rfl ⟨_, ?_, rfl⟩
  change List.Forall₂ R (statement.args.map _) (statement.args.map _)
  rw [List.forall₂_map_left_iff, List.forall₂_map_right_iff, List.forall₂_same]
  intro arg harg
  -- formals come before fields in both environments, so a name finds related arguments
  apply substitute_related (List.rel_append hformals hrelated)
  intro hbound
  refine hsim.free pseudo hpseudo statement hstatement arg harg (fun hkind => ?_) _
  rw [← hnames, ← names_bindFields pseudo _ fields hfields]
  have hboth := hbound hkind
  rw [NameMap.names, List.map_append, List.mem_append, not_or] at hboth
  exact hboth

end Pseudo

namespace PseudoTable

variable {R : Token → Token → Prop} {S : Statement → Statement → Prop}

theorem find?_eq_some (table : PseudoTable) (mnemonic : String) (arity : Nat) (pseudo : Pseudo)
    (h : table.find? mnemonic arity = some pseudo) : pseudo ∈ table ∧ pseudo.arity = arity := by
  rw [find?] at h
  have hfound := List.find?_some h
  rw [decide_eq_true_eq] at hfound
  exact ⟨List.mem_of_find?_eq_some h, hfound.2⟩

theorem expandOnce_simulates (table : PseudoTable) (hsim : table.Simulates R S)
    (given other : Statement) (expanded : List Statement) (h : S given other)
    (hexpand : table.expandOnce given = .ok expanded) :
    ∃ expanded', table.expandOnce other = .ok expanded' ∧ List.Forall₂ S expanded expanded' := by
  rw [expandOnce, hsim.expands given other h]
  rw [expandOnce] at hexpand
  split at hexpand
  · rename_i hexpands
    have hargs := hsim.call given other h hexpands
    have hfind : table.find? other.mnemonic other.args.length =
        table.find? given.mnemonic given.args.length := by
      obtain ⟨args, hargs, rfl⟩ := hargs
      exact congrArg (table.find? given.mnemonic) hargs.length_eq.symm
    rw [if_pos hexpands, hfind]
    split at hexpand
    · rename_i pseudo hpseudo
      obtain ⟨hmem, harity⟩ := find?_eq_some table _ _ pseudo hpseudo
      exact Pseudo.instantiate_simulates hsim pseudo hmem given other harity hargs expanded hexpand
    · cases hexpand
  · cases hexpand
    rw [if_neg ‹_›]
    exact ⟨[other], rfl, .cons h .nil⟩

/-- Nothing is left to expand, so the expansion ends. -/
theorem expandIn_of_done (table : PseudoTable) (rounds : Nat) (statements : List Statement)
    (h : statements.any table.expands = false) :
    table.expandIn rounds statements = .ok statements := by
  have hnone : statements.find? table.expands = none := by
    rw [List.find?_eq_none]
    exact fun statement hmem => List.any_eq_false.mp h statement hmem
  exact expandWith_of_none _ rounds hnone

/-- Something is left to expand, so there has to be another round. -/
theorem expandIn_of_open (table : PseudoTable) (rounds : Nat) (statements expanded : List Statement)
    (h : statements.any table.expands = true) :
    table.expandIn rounds statements = .ok expanded ↔
      ∃ earlier next, rounds = earlier + 1 ∧ statements.mapM table.expandOnce = .ok next ∧
        table.expandIn earlier next.flatten = .ok expanded := by
  obtain ⟨statement, hfound⟩ : ∃ statement, statements.find? table.expands = some statement := by
    obtain ⟨statement, hmem, hexpands⟩ := List.any_eq_true.mp h
    exact Option.isSome_iff_exists.mp (List.find?_isSome.mpr ⟨statement, hmem, hexpands⟩)
  cases rounds with
  | zero =>
    rw [expandIn, expandWith_zero _ hfound]
    exact ⟨nofun, fun ⟨_, _, hrounds, _⟩ => by cases hrounds⟩
  | succ rounds =>
    rw [expandIn, expandWith_succ _ _ hfound, expandRound_declared, bind_eq_ok_iff]
    constructor
    · rintro ⟨next, hnext, hrest⟩
      exact ⟨rounds, next, rfl, hnext, hrest⟩
    · rintro ⟨earlier, next, hrounds, hnext, hrest⟩
      cases hrounds
      exact ⟨next, hnext, hrest⟩

theorem any_expands_simulates (table : PseudoTable) (hsim : table.Simulates R S)
    {given other : List Statement} (h : List.Forall₂ S given other) :
    other.any table.expands = given.any table.expands := by
  induction h with
  | nil => rfl
  | cons hfirst _ ih => rw [List.any_cons, List.any_cons, ih, hsim.expands _ _ hfirst]

/-- Related programs expand to related programs. -/
theorem expandIn_simulates (table : PseudoTable) (hsim : table.Simulates R S) (rounds : Nat)
    {given other : List Statement} (expanded : List Statement) (h : List.Forall₂ S given other)
    (hexpand : table.expandIn rounds given = .ok expanded) :
    ∃ expanded', table.expandIn rounds other = .ok expanded' ∧
      List.Forall₂ S expanded expanded' := by
  -- related programs have the same calls, so they go through the same rounds
  induction rounds using Nat.strongRecOn generalizing given other with
  | ind rounds ih =>
    have hany := any_expands_simulates table hsim h
    cases hopen : given.any table.expands with
    | false =>
      rw [expandIn_of_done table rounds given hopen] at hexpand
      cases hexpand
      exact ⟨other, expandIn_of_done table rounds other (hany.trans hopen), h⟩
    | true =>
      obtain ⟨earlier, next, rfl, hnext, hrest⟩ :=
        (expandIn_of_open table rounds given expanded hopen).mp hexpand
      obtain ⟨next', hnext', hrelated⟩ := mapM_related _ _
        (fun given other expanded => expandOnce_simulates table hsim given other expanded)
        h next hnext
      obtain ⟨expanded', hrest', hrelated'⟩ :=
        ih earlier (Nat.lt_succ_self earlier) (List.rel_flatten hrelated) hrest
      refine ⟨expanded', ?_, hrelated'⟩
      exact (expandIn_of_open table _ other expanded' (hany.trans hopen)).mpr
        ⟨earlier, next', rfl, hnext', hrest'⟩

end PseudoTable

/-- A relation of arguments that deriving keeps and that everything is in with itself. -/
structure Pseudo.Keeps (R : Token → Token → Prop) : Prop where
  refl : ∀ token, R token token
  derive : ∀ name field actual other derived, R actual other →
    Pseudo.derive name field actual = .ok derived →
    ∃ derived', Pseudo.derive name field other = .ok derived' ∧ R derived derived'

theorem Pseudo.Keeps.simulates {R : Token → Token → Prop} (hR : Keeps R) (table : PseudoTable) :
    table.Simulates R (Statement.ArgsRelated R) where
  derive := hR.derive
  free := fun _ _ _ _ _ _ _ _ => hR.refl _
  absent := fun _ _ _ _ _ => hR.refl _
  expands := by
    rintro given other ⟨args, -, rfl⟩
    rfl
  call := fun _ _ h _ => h
  instruction := fun _ _ _ h => h

/-- Programs whose arguments are related expand to programs whose arguments are related. -/
theorem PseudoTable.expandIn_related {R : Token → Token → Prop} (hR : Pseudo.Keeps R)
    (table : PseudoTable) (rounds : Nat) {given other : List Statement} (expanded : List Statement)
    (h : List.Forall₂ (Statement.ArgsRelated R) given other)
    (hexpand : table.expandIn rounds given = .ok expanded) :
    ∃ expanded', table.expandIn rounds other = .ok expanded' ∧
      List.Forall₂ (Statement.ArgsRelated R) expanded expanded' :=
  table.expandIn_simulates (hR.simulates table) rounds expanded h hexpand

end WordAsm
