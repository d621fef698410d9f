import WordAsm.Image
import WordAsm.InstructionSet.Definition
import WordAsm.Proofs.Checks
import WordAsm.Proofs.Numerals
import WordAsm.Proofs.Placement
import WordAsm.Proofs.SourcePositions
import WordAsm.Statement.Grammar

/-! Programs from stage to stage. Parsing, layout and images look only at tokens that have come
through the stages before, so that their faults stand where those tokens do. Layout leaves neither
labels nor origins nor label references behind, which is what the image relies on. -/

namespace WordAsm

variable {within : Position → Prop}

namespace Statement

/-- The tokens of the statement are sound. -/
structure Sound (within : Position → Prop) (statement : Statement) : Prop where
  name : statement.name.Sound within
  args : ∀ arg ∈ statement.args, arg.Sound within

theorem Sound.numbers {statement : Statement} (h : statement.Sound within) :
    ∀ token ∈ statement.name :: statement.args, token.kind = .number → token.Readable :=
  List.forall_mem_cons.mpr ⟨h.name.number, fun arg harg => (h.args arg harg).number⟩

/-- A statement in front of those that are parsed behind it. -/
theorem ends_statement {statement : Statement} {later : Except Error (List Statement)}
    (h : statement.Sound within)
    (hlater : Ends (fun statements => ∀ statement ∈ statements, statement.Sound within)
      (Error.Found [.grammatical] within) later) :
    Ends (fun statements => ∀ statement ∈ statements, statement.Sound within)
      (Error.Found [.grammatical] within)
      (do let statements ← later; return statement :: statements) := by
  apply hlater.bind
  intro statements _ hstatements
  exact List.forall_mem_cons.mpr ⟨h, hstatements⟩

mutual

/-- Statements consist of the tokens that they were parsed from. -/
theorem ends_parse (tokens : List Token) (h : ∀ token ∈ tokens, token.Sound within) :
    Ends (fun statements => ∀ statement ∈ statements, statement.Sound within)
      (Error.Found [.grammatical] within) (parse tokens) := by
  rw [parse.eq_def]
  match tokens with
  | [] => exact List.forall_mem_nil _
  | token :: rest =>
    obtain ⟨htoken, hrest⟩ := List.forall_mem_cons.mp h
    dsimp only
    split
    · exact ends_parse rest hrest
    · split
      · exact ⟨List.mem_singleton_self _, htoken.pos⟩
      · have halone (kind : Kind) : (unplaced kind token []).Sound within :=
          ⟨htoken, List.forall_mem_nil _⟩
        match rest with
        | [] => exact List.forall_mem_singleton.mpr (halone _)
        | next :: rest =>
          obtain ⟨hnext, hrest⟩ := List.forall_mem_cons.mp hrest
          dsimp only
          split
          · exact ends_statement (halone _) (ends_parse rest hrest)
          · split
            · exact ends_statement (halone _) (ends_parse rest hrest)
            · split
              · exact ends_parseArgs token [next] rest htoken (List.forall_mem_singleton.mpr hnext)
                  hrest
              · exact ⟨List.mem_singleton_self _, hnext.pos⟩
termination_by tokens.length

theorem ends_parseArgs (name : Token) (args tokens : List Token) (hname : name.Sound within)
    (hargs : ∀ arg ∈ args, arg.Sound within) (h : ∀ token ∈ tokens, token.Sound within) :
    Ends (fun statements => ∀ statement ∈ statements, statement.Sound within)
      (Error.Found [.grammatical] within) (parseArgs name args tokens) := by
  rw [parseArgs.eq_def]
  have hcall : (unplaced .instruction name args).Sound within := ⟨hname, hargs⟩
  match tokens with
  | [] => exact List.forall_mem_singleton.mpr hcall
  | token :: rest =>
    obtain ⟨htoken, hrest⟩ := List.forall_mem_cons.mp h
    dsimp only
    split
    · exact ends_statement hcall (ends_parse rest hrest)
    · split
      · exact ⟨List.mem_singleton_self _, htoken.pos⟩
      · match rest with
        | [] => exact ⟨List.mem_singleton_self _, htoken.pos⟩
        | next :: rest =>
          obtain ⟨hnext, hrest⟩ := List.forall_mem_cons.mp hrest
          dsimp only
          split
          · exact ⟨List.mem_singleton_self _, htoken.pos⟩
          · split
            · refine ends_parseArgs name (args ++ [next]) rest hname ?_ hrest
              exact List.forall_mem_append.mpr ⟨hargs, List.forall_mem_singleton.mpr hnext⟩
            · exact ⟨List.mem_singleton_self _, hnext.pos⟩
termination_by tokens.length

end

end Statement

namespace Token

theorem sound_ofValue (value : UInt64) (pos : Position) (hpos : within pos) :
    (ofValue value pos).Sound within :=
  ⟨hpos, fun _ => ⟨.inr (.inl rfl), value, value_ofValue value pos⟩⟩

end Token

/-- The statement is sound, takes a place and refers to no labels. -/
structure Statement.Laid (within : Position → Prop) (statement : Statement) : Prop
    extends statement.Sound within where
  retained : statement.retained = true
  no_reference : ∀ arg ∈ statement.args, arg.kind ≠ .identifier

namespace Layout

theorem ends_originOf (statement : Statement) (h : statement.Sound within) :
    Ends (fun _ => True) (Error.Found [.semantic] within) (originOf statement) := by
  rw [originOf]
  split
  · rename_i arg hargs
    have harg : within arg.pos := (h.args arg (hargs ▸ List.mem_singleton_self arg)).pos
    split
    · split
      · trivial
      · exact ⟨List.mem_singleton_self _, harg⟩
    · exact ⟨List.mem_singleton_self _, harg⟩
  · exact ⟨List.mem_singleton_self _, h.name.pos⟩

/-- What is placed are statements of the program that take a place. -/
theorem ends_place (width : Nat) (strict : Bool) (address : UInt64) (labels : NameMap LabelSite)
    (statements : List Statement) (h : ∀ statement ∈ statements, statement.Sound within) :
    Ends (fun result => ∀ statement ∈ result.1,
        statement.Sound within ∧ statement.retained = true)
      (Error.Found [.semantic] within) (place width strict address labels statements) := by
  induction statements generalizing address labels with
  | nil => exact List.forall_mem_nil _
  | cons statement rest ih =>
    obtain ⟨hstatement, hrest⟩ := List.forall_mem_cons.mp h
    rw [place]
    split
    · dsimp only
      split
      · exact ⟨List.mem_singleton_self _, hstatement.name.pos⟩
      · exact ih _ _ hrest
    · rename_i hkind
      split
      · apply (ends_originOf statement hstatement).bind
        intro origin _ _
        exact ih _ _ hrest
      · rename_i horigin
        apply (ih _ _ hrest).bind
        rintro ⟨placed, sites⟩ _ hplaced
        have hretained : statement.retained = true :=
          statement.retained_iff.mpr ⟨hkind, Bool.not_eq_true _ ▸ horigin⟩
        exact List.forall_mem_cons.mpr ⟨⟨⟨hstatement.name, hstatement.args⟩, hretained⟩, hplaced⟩

theorem ends_resolveArg (labels : NameMap UInt64) (arg : Token) (h : arg.Sound within) :
    Ends (fun resolved => resolved.Sound within ∧ resolved.kind ≠ .identifier)
      (Error.Found [.semantic] within) (resolveArg labels arg) := by
  rw [resolveArg]
  split
  · split
    · exact ⟨Token.sound_ofValue _ _ h.pos, nofun⟩
    · exact ⟨List.mem_singleton_self _, h.pos⟩
  · exact ⟨h, ‹_›⟩

theorem ends_resolve (width : Nat) (strict : Bool) (statements : List Statement)
    (h : ∀ statement ∈ statements, statement.Sound within) :
    Ends (fun layout => ∀ statement ∈ layout.statements, statement.Laid within)
      (Error.Found [.semantic] within) (resolve width strict statements) := by
  apply (ends_place width strict 0 [] statements h).bind
  rintro ⟨placed, sites⟩ _ hplaced
  refine Ends.bind (Ends.mapM _ placed ?_) fun resolved _ hresolved => hresolved
  intro statement hmem
  obtain ⟨hsound, hretained⟩ := hplaced statement hmem
  apply (Ends.mapM _ statement.args fun arg harg =>
    ends_resolveArg _ arg (hsound.args arg harg)).bind
  intro args _ hargs
  exact ⟨⟨hsound.name, fun arg harg => (hargs arg harg).1⟩, hretained,
    fun arg harg => (hargs arg harg).2⟩

end Layout

namespace Image

variable {set : InstructionSet}

theorem ends_checkFits (arg : Token) (value : UInt64) (width : Nat) (h : within arg.pos) :
    Ends (fun _ => True) (Error.Found [.semantic] within) (checkFits arg value width) := by
  rw [checkFits]
  split
  · trivial
  · exact ⟨List.mem_singleton_self _, h⟩

theorem ends_namedOperand (mnemonic : String) (cls : Class) (width bit : Nat) (arg : Token)
    (h : within arg.pos) :
    Ends (fun _ => True) (Error.Found [.semantic] within)
      (namedOperand set mnemonic cls width bit arg) := by
  rw [namedOperand]
  split
  · exact ⟨List.mem_singleton_self _, h⟩
  · split
    · exact ⟨List.mem_singleton_self _, h⟩
    · exact ends_checkFits arg _ width h

theorem ends_numericOperand (mnemonic : String) (width bit : Nat) (arg : Token)
    (h : within arg.pos) (hkind : arg.kind ≠ .identifier) :
    Ends (fun _ => True) (Error.Found [.semantic] within)
      (numericOperand mnemonic width bit arg) := by
  rw [numericOperand]
  split
  · split
    · exact ends_checkFits arg _ width h
    · exact ⟨List.mem_singleton_self _, h⟩
  · exact absurd ‹_› hkind
  · exact ⟨List.mem_singleton_self _, h⟩

theorem ends_partValues (mnemonic : String) (pos : Position) (hpos : within pos) (bit : Nat)
    (format : Format) (args : List Token)
    (hargs : ∀ arg ∈ args, within arg.pos ∧ arg.kind ≠ .identifier) :
    Ends (fun _ => True) (Error.Found [.semantic] within)
      (partValues set mnemonic pos bit format args) := by
  -- a part takes the first argument or none, and what is left keeps the hypothesis
  fun_induction partValues set mnemonic pos bit format args with
  | case1 => trivial
  | case2 bit width bits rest args ih => exact (ih hargs).bind fun _ _ _ => trivial
  | case3 => exact ⟨List.mem_singleton_self _, hpos⟩
  | case4 bit cls width rest arg args ih =>
    obtain ⟨harg, hargs⟩ := List.forall_mem_cons.mp hargs
    apply (ends_namedOperand mnemonic cls width bit arg harg.1).bind
    intro value _ _
    exact (ih hargs).bind fun _ _ _ => trivial
  | case5 => exact ⟨List.mem_singleton_self _, hpos⟩
  | case6 bit width rest arg args ih =>
    obtain ⟨harg, hargs⟩ := List.forall_mem_cons.mp hargs
    apply (ends_numericOperand mnemonic width bit arg harg.1 harg.2).bind
    intro value _ _
    exact (ih hargs).bind fun _ _ _ => trivial
  | case7 bit width rest ih => exact (ih hargs).bind fun _ _ _ => trivial
  | case8 bit width rest arg args ih =>
    obtain ⟨harg, hargs⟩ := List.forall_mem_cons.mp hargs
    apply (ends_numericOperand mnemonic width bit arg harg.1 harg.2).bind
    intro value _ _
    exact (ih hargs).bind fun _ _ _ => trivial

theorem ends_instructionBytes (statement : Statement)
    (h : statement.Laid within) :
    Ends (fun _ => True) (Error.Found [.semantic] within) (instructionBytes set statement) := by
  refine Ends.bind (P := fun _ => True) ?_ fun _ _ _ => trivial
  rw [instructionWord]
  split
  · exact ⟨List.mem_singleton_self _, h.name.pos⟩
  · rename_i format hformat
    have hwidth : Format.width format = set.width :=
      set.valid.format_width _ (NameMap.mem_of_get? _ _ _ hformat)
    apply (ends_partValues _ _ h.name.pos 0 format statement.args
      fun arg harg => ⟨(h.args arg harg).pos, h.no_reference arg harg⟩).bind
    intro values _ _
    rw [require, if_pos (by simpa using hwidth)]
    trivial

theorem ends_slotValues (mnemonic : String) (arg : Token) (h : within arg.pos)
    (hkind : arg.kind ≠ .identifier) :
    Ends (fun _ => True) (Error.Found [.semantic] within) (slotValues mnemonic arg) := by
  rw [slotValues]
  split
  · split
    · trivial
    · exact ⟨List.mem_singleton_self _, h⟩
  · trivial
  · exact absurd ‹_› hkind
  · exact ⟨List.mem_singleton_self _, h⟩

theorem ends_statementBytes (statement : Statement) (h : statement.Laid within) :
    Ends (fun _ => True) (Error.Found [.semantic] within) (statementBytes set statement) := by
  obtain ⟨hkind, horigin⟩ := statement.retained_iff.mp h.retained
  rw [statementBytes, if_neg hkind, horigin, if_neg Bool.false_ne_true]
  split
  · apply (Ends.mapM _ statement.args fun arg harg =>
      ends_slotValues _ arg (h.args arg harg).pos (h.no_reference arg harg)).bind
    intro values _ _
    trivial
  · exact ends_instructionBytes statement h

/-- An image has only faults that the program is to blame for. -/
theorem ends_generate (statements : List Statement)
    (h : ∀ statement ∈ statements, statement.Laid within) :
    Ends (fun _ => True) (Error.Found [.semantic] within) (generate set statements) := by
  apply (Ends.mapM _ statements fun statement hmem =>
    ends_statementBytes statement (h statement hmem)).bind
  intro blocks _ _
  trivial

end Image

end WordAsm
