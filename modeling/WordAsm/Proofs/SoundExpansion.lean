import WordAsm.Assembler
import WordAsm.Proofs.Expansion
import WordAsm.Proofs.SoundPrograms

/-! Expansion of sound programs. Templates were scanned and parsed like sources, so their numbers
can be read as well, and what they bring along takes the position of the call. A call gives an
argument to every formal, and fields are derived from formals only, so no argument is ever missing.
Expansion has a fault of its own only where templates call one another. -/

namespace WordAsm

variable {within : Position → Prop}

/-- What compiling makes sure of: the statements of the template are sound, wherever they stand, and
fields select from formals. -/
structure Pseudo.Compiled (pseudo : Pseudo) : Prop where
  body : ∀ statement ∈ pseudo.body, statement.Sound fun _ => True
  fields : ∀ entry ∈ pseudo.fields, entry.2.param ∈ pseudo.params

theorem Token.Sound.anywhere {token : Token} (h : token.Sound within) :
    token.Sound fun _ => True :=
  ⟨trivial, h.number⟩

/-- The token at another position. -/
theorem Token.Sound.at {token : Token} {within' : Position → Prop} (h : token.Sound within)
    (pos : Position) (hpos : within' pos) : Token.Sound within' { token with pos } :=
  ⟨hpos, h.number⟩

namespace Pseudo

theorem sound_readTemplate (lexicon : Lexicon) (name text : String) (statements : List Statement)
    (h : readTemplate lexicon name text = .ok statements) :
    ∀ statement ∈ statements, statement.Sound fun _ => True := by
  rw [readTemplate] at h
  split at h
  · rename_i parsed hread
    cases h
    obtain ⟨tokens, htokens, hparse⟩ := bind_eq_ok_iff.mp hread
    have hsound := (Token.ends_scan lexicon "" text.toList).of_ok htokens
    exact (Statement.ends_parse tokens fun token hmem => (hsound token hmem).anywhere).of_ok hparse
  · cases h

/-- A derived field is fit if it hides no formal, selects from one and passes the range check, in
which the sum may wrap around. -/
theorem fieldFault?_eq_none_iff (name : String) (params : List String)
    (entry : String × BitField) :
    fieldFault? name params entry = none ↔
      entry.1 ∉ params ∧ entry.2.param ∈ params ∧ entry.2.width ≠ 0 ∧
        entry.2.shift + entry.2.width ≤ 64 := by
  simp only [fieldFault?]
  split_ifs with hname hparam hrange
  · have hhidden : entry.1 ∈ params := by simpa using hname
    simp [hhidden]
  · have hunknown : entry.2.param ∉ params := by simpa using hparam
    simp [hunknown]
  · have hunfit : ¬ (entry.2.width ≠ 0 ∧ entry.2.shift + entry.2.width ≤ 64) := by
      rintro ⟨hwidth, hsum⟩
      exact hrange.elim hwidth (UInt64.not_lt.mpr hsum)
    simp only [hunfit, and_false]
  · have hfit : entry.2.width ≠ 0 ∧ entry.2.shift + entry.2.width ≤ 64 := by simpa using hrange
    have hnames : entry.1 ∉ params ∧ entry.2.param ∈ params := by
      simpa using And.intro hname hparam
    exact iff_of_true rfl ⟨hnames.1, hnames.2, hfit⟩

/-- What a text has gone through when it is compiled. -/
theorem of_compile (lexicon : Lexicon) (text : PseudoText) (pseudo : Pseudo)
    (h : compile lexicon text = .ok pseudo) :
    pseudo.fields = text.fields ∧ readTemplate lexicon pseudo.name text.body = .ok pseudo.body ∧
      ∀ entry ∈ text.fields, fieldFault? pseudo.name pseudo.params entry = none := by
  obtain ⟨head, -, h⟩ := bind_eq_ok_iff.mp h
  obtain ⟨params, -, h⟩ := bind_eq_ok_iff.mp h
  obtain ⟨_, hhead, h⟩ := bind_eq_ok_iff.mp h
  obtain ⟨body, hbody, h⟩ := bind_eq_ok_iff.mp h
  obtain ⟨-, -, h⟩ := bind_eq_ok_iff.mp h
  cases h
  refine ⟨rfl, hbody, ?_⟩
  rw [forbid_eq_ok_iff, Option.map_eq_none_iff, headFault?] at hhead
  split at hhead
  · cases hhead
  · exact List.findSome?_eq_none_iff.mp hhead

theorem compiled_of_compile (lexicon : Lexicon) (text : PseudoText) (pseudo : Pseudo)
    (h : compile lexicon text = .ok pseudo) : pseudo.Compiled := by
  obtain ⟨hfields, hbody, hfit⟩ := of_compile lexicon text pseudo h
  refine ⟨sound_readTemplate lexicon _ text.body pseudo.body hbody, ?_⟩
  intro entry hentry
  rw [hfields] at hentry
  exact ((fieldFault?_eq_none_iff ..).mp (hfit entry hentry)).2.1

theorem exists_formal (pseudo : Pseudo) (args : List Token) (harity : pseudo.arity = args.length)
    (param : String) (hparam : param ∈ pseudo.params) :
    ∃ arg ∈ args, (pseudo.bindFormals args).get? param = some arg := by
  rw [← names_bindFormals pseudo args harity] at hparam
  obtain ⟨arg, hget⟩ := NameMap.exists_of_mem_names _ param hparam
  exact ⟨arg, (List.of_mem_zip (NameMap.mem_of_get? _ param arg hget)).2, hget⟩

theorem ends_derive (name : String) (field : BitField) (actual : Token)
    (h : actual.Sound within) :
    Ends (Token.Sound within) (Error.Found [.grammatical, .semantic] within)
      (derive name field actual) := by
  rw [derive]
  split
  · split
    · exact Token.sound_ofValue _ _ h.pos
    · exact ⟨List.mem_cons_of_mem _ (List.mem_singleton_self _), h.pos⟩
  · rename_i hkind
    refine ⟨h.pos, fun hnumber => ?_⟩
    rw [hkind] at hnumber
    cases hnumber
  · exact ⟨List.mem_cons_of_mem _ (List.mem_singleton_self _), h.pos⟩

theorem ends_bindFields (pseudo : Pseudo) (hpseudo : pseudo.Compiled) (args : List Token)
    (harity : pseudo.arity = args.length) (hargs : ∀ arg ∈ args, arg.Sound within) :
    Ends (fun fields => ∀ entry ∈ fields, entry.2.Sound within)
      (Error.Found [.grammatical, .semantic] within)
      (pseudo.bindFields (pseudo.bindFormals args)) := by
  apply Ends.mapM
  rintro ⟨name, field⟩ hentry
  obtain ⟨arg, harg, hget⟩ := exists_formal pseudo args harity field.param (hpseudo.fields _ hentry)
  dsimp only
  rw [select, hget]
  apply (ends_derive pseudo.name field arg (hargs arg harg)).bind
  intro derived _ hderived
  exact hderived

theorem sound_bindFormals (pseudo : Pseudo) (args : List Token)
    (hargs : ∀ arg ∈ args, arg.Sound within) :
    ∀ entry ∈ pseudo.bindFormals args, entry.2.Sound within := by
  intro entry hentry
  exact hargs entry.2 (List.of_mem_zip hentry).2

theorem sound_substitute (bound : NameMap Token) (hbound : ∀ entry ∈ bound, entry.2.Sound within)
    (pos : Position) (hpos : within pos) (arg : Token) (harg : arg.Sound fun _ => True) :
    (substitute bound pos arg).Sound within := by
  rw [substitute]
  split
  · cases hget : bound.get? arg.text with
    | none => exact harg.at pos hpos
    | some actual => exact hbound _ (NameMap.mem_of_get? bound arg.text actual hget)
  · exact harg.at pos hpos

theorem ends_instantiate (pseudo : Pseudo) (hpseudo : pseudo.Compiled) (call : Statement)
    (harity : pseudo.arity = call.args.length) (hcall : call.Sound within) :
    Ends (fun statements => ∀ statement ∈ statements, statement.Sound within)
      (Error.Found [.grammatical, .semantic] within) (pseudo.instantiate call) := by
  apply (ends_bindFields pseudo hpseudo call.args harity hcall.args).bind
  intro fields _ hfields statement hstatement
  obtain ⟨template, htemplate, rfl⟩ := List.mem_map.mp hstatement
  have hsound := hpseudo.body template htemplate
  refine ⟨hsound.name.at _ hcall.name.pos, ?_⟩
  intro arg harg
  obtain ⟨given, hgiven, rfl⟩ := List.mem_map.mp harg
  refine sound_substitute _ ?_ _ hcall.name.pos given (hsound.args given hgiven)
  exact List.forall_mem_append.mpr ⟨sound_bindFormals pseudo call.args hcall.args, hfields⟩

end Pseudo

namespace PseudoTable

/-- Every pseudo-instruction of the table has been compiled. -/
def Compiled (table : PseudoTable) : Prop :=
  ∀ pseudo ∈ table, pseudo.Compiled

theorem compile_of_add (set : InstructionSet) (known table : PseudoTable) (text : PseudoText)
    (h : add set known text = .ok table) :
    ∃ pseudo, Pseudo.compile set.classOf? text = .ok pseudo ∧ table = known ++ [pseudo] := by
  obtain ⟨pseudo, hpseudo, h⟩ := bind_eq_ok_iff.mp h
  obtain ⟨-, -, h⟩ := bind_eq_ok_iff.mp h
  obtain ⟨-, -, h⟩ := bind_eq_ok_iff.mp h
  cases h
  exact ⟨pseudo, hpseudo, rfl⟩

theorem compiled_add (set : InstructionSet) (table : PseudoTable) (text : PseudoText)
    (table' : PseudoTable) (htable : Compiled table) (h : add set table text = .ok table') :
    Compiled table' := by
  obtain ⟨pseudo, hpseudo, rfl⟩ := compile_of_add set table table' text h
  refine List.forall_mem_append.mpr ⟨htable, List.forall_mem_singleton.mpr ?_⟩
  exact Pseudo.compiled_of_compile _ text pseudo hpseudo

theorem compiled_ofSet (set : InstructionSet) (table : PseudoTable) (h : ofSet set = .ok table) :
    Compiled table :=
  foldlM_invariant (add set) Compiled (compiled_add set) set.pseudos [] table
    (List.forall_mem_nil _) h

variable {table : PseudoTable}

theorem ends_expandOnce (htable : Compiled table) (statement : Statement)
    (h : statement.Sound within) :
    Ends (fun statements => ∀ statement ∈ statements, statement.Sound within)
      (Error.Found [.grammatical, .semantic] within) (table.expandOnce statement) := by
  rw [expandOnce]
  split
  · split
    · rename_i pseudo hfind
      obtain ⟨hmem, harity⟩ := find?_eq_some table _ _ pseudo hfind
      exact Pseudo.ends_instantiate pseudo (htable pseudo hmem) statement harity h
    · exact ⟨List.mem_cons_self, h.name.pos⟩
  · exact List.forall_mem_singleton.mpr h

/-- A fault of an expansion: one of the program, or that it does not end. -/
def ExpansionFault (within : Position → Prop) (e : Error) : Prop :=
  e.Found [.grammatical, .semantic] within ∨
    within e.pos ∧ ∃ mnemonic, e.fault = .endlessExpansion mnemonic maxRounds

theorem ends_expandIn (htable : Compiled table) (rounds : Nat) (statements : List Statement)
    (h : ∀ statement ∈ statements, statement.Sound within) :
    Ends (fun expanded => ∀ statement ∈ expanded,
        statement.Sound within ∧ table.expands statement = false)
      (ExpansionFault within) (table.expandIn rounds statements) := by
  -- each round starts from a sound program, and the last one finds nothing to expand
  induction rounds using Nat.strongRecOn generalizing statements with
  | ind rounds ih =>
    cases hfind : statements.find? table.expands with
    | none =>
      rw [expandIn, expandWith_of_none _ _ hfind]
      intro statement hmem
      exact ⟨h statement hmem, Bool.not_eq_true _ ▸ List.find?_eq_none.mp hfind statement hmem⟩
    | some call =>
      cases rounds with
      | zero =>
        rw [expandIn, expandWith_zero _ hfind]
        exact .inr ⟨(h call (List.mem_of_find?_eq_some hfind)).name.pos, call.mnemonic, rfl⟩
      | succ rounds =>
        rw [expandIn, expandWith_succ _ _ hfind, expandRound_declared]
        have hround := Ends.mapM _ statements fun statement hmem =>
          ends_expandOnce htable statement (h statement hmem)
        apply (hround.imp (fun _ _ => id) fun _ _ => Or.inl).bind
        intro next _ hnext
        apply ih rounds (Nat.lt_succ_self rounds)
        intro statement hstatement
        obtain ⟨block, hblock, hmem⟩ := List.mem_flatten.mp hstatement
        exact hnext block hblock statement hmem

/-- No template calls a pseudo-instruction. -/
def Flat (table : PseudoTable) : Prop :=
  ∀ pseudo ∈ table, ∀ statement ∈ pseudo.body, table.knows statement.mnemonic = false

instance (table : PseudoTable) : Decidable (Flat table) :=
  inferInstanceAs (Decidable (∀ pseudo ∈ table, ∀ statement ∈ pseudo.body,
    table.knows statement.mnemonic = false))

theorem expands_expandOnce (hflat : Flat table) (statement : Statement) (block : List Statement)
    (h : table.expandOnce statement = .ok block) :
    ∀ other ∈ block, table.expands other = false := by
  rw [expandOnce] at h
  split at h
  · split at h
    · rename_i pseudo hfind
      obtain ⟨fields, -, h⟩ := bind_eq_ok_iff.mp h
      cases h
      intro other hother
      obtain ⟨template, htemplate, rfl⟩ := List.mem_map.mp hother
      exact hflat pseudo (find?_eq_some table _ _ pseudo hfind).1 template htemplate
    · cases h
  · cases h
    exact List.forall_mem_singleton.mpr (Bool.not_eq_true _ ▸ ‹_›)

/-- Where no template calls a pseudo-instruction one round is enough. -/
theorem ends_expand_of_flat (htable : Compiled table) (hflat : Flat table)
    (statements : List Statement) (h : ∀ statement ∈ statements, statement.Sound within) :
    Ends (fun _ => True) (Error.Found [.grammatical, .semantic] within)
      (table.expand statements) := by
  cases hfind : statements.find? table.expands with
  | none =>
    rw [expand, expandWith_of_none _ _ hfind]
    trivial
  | some call =>
    rw [expand, maxRounds, expandWith_succ _ _ hfind, expandRound_declared]
    have hround := Ends.mapM _ statements fun statement hmem =>
      (ends_expandOnce htable statement (h statement hmem)).imp
        (fun block hblock _ => expands_expandOnce hflat statement block hblock) fun _ _ => id
    apply hround.bind
    intro next _ hnext
    have hdone : next.flatten.any table.expands = false := by
      rw [List.any_eq_false]
      intro statement hstatement
      obtain ⟨block, hblock, hmem⟩ := List.mem_flatten.mp hstatement
      exact Bool.not_eq_true _ ▸ hnext block hblock statement hmem
    rw [← expandIn, expandIn_of_done table 15 next.flatten hdone]
    trivial

end PseudoTable

theorem Assembler.of_ofSet (set : InstructionSet) (strict : Bool) (asm : Assembler)
    (h : ofSet set strict = .ok asm) : asm.set = set ∧ asm.pseudos.Compiled := by
  obtain ⟨pseudos, hpseudos, h⟩ := bind_eq_ok_iff.mp h
  cases h
  exact ⟨rfl, PseudoTable.compiled_ofSet set pseudos hpseudos⟩

end WordAsm
