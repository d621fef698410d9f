import WordAsm.Proofs.Scanning
import WordAsm.Statement.Grammar

/-! Parsing of written statements. A line break parts a program into two that are parsed on their
own, and the tokens of a statement parse to it. Parsing looks at no positions: tokens that parse
without their positions parse with them. -/

namespace WordAsm

namespace Statement

/-- The statement without positions. -/
def bare (statement : Statement) : Statement :=
  { statement with name := statement.name.bare, args := statement.args.map Token.bare }

/-- The tokens of a statement, up to the end of its line if it is not a label. -/
def tokens (statement : Statement) : List Token :=
  if statement.kind = .label then [statement.name, Token.colon]
  else statement.name :: statement.args.intersperse Token.comma ++ [Token.lineBreak]

/-- A statement that can be written down. -/
inductive Written : Statement → Prop where
  | label (name : Token) (hname : name.kind = .identifier) : Written (unplaced .label name [])
  | instruction (name : Token) (args : List Token) (hname : name.kind = .identifier)
    (hargs : ∀ arg ∈ args, arg.isArgument = true) : Written (unplaced .instruction name args)

theorem not_isBreak_of_isArgument (token : Token) (h : token.isArgument = true) :
    token.isBreak = false ∧ token.isColon = false := by
  rw [Token.isArgument] at h
  split at h
  all_goals first
    | exact absurd h Bool.false_ne_true
    | (rename_i hkind; simp [Token.isBreak, Token.isColon, hkind])

theorem isColon_of_isBreak (token : Token) (h : token.isBreak = true) : token.isColon = false := by
  rw [Token.isBreak, beq_iff_eq] at h
  rw [Token.isColon, h]
  rfl

theorem isBreak_of_isComma (token : Token) (h : token.isComma = true) : token.isBreak = false := by
  rw [Token.isComma, Bool.and_eq_true, beq_iff_eq] at h
  rw [Token.isBreak, h.1]
  rfl

/-- A statement in front of two lists that are parsed one after the other. -/
theorem cons_bind_append (statement : Statement) (front later : Except Error (List Statement)) :
    (front >>= fun front => later >>= fun rest => pure (front ++ rest)) >>=
        (fun statements => pure (statement :: statements)) =
      (front >>= fun front => pure (statement :: front)) >>=
        fun front => later >>= fun rest => pure (front ++ rest) := by
  cases front with
  | error e => rfl
  | ok front =>
    cases later with
    | error e => rfl
    | ok rest => rfl

mutual

/-- A line break parts a program: what stands in front of it and what stands behind it are parsed on
their own. -/
theorem parse_append (tokens : List Token) (lineBreak : Token) (h : lineBreak.isBreak = true)
    (later : List Token) :
    parse (tokens ++ lineBreak :: later) = (do
      let front ← parse tokens
      let rest ← parse later
      return front ++ rest) := by
  match tokens with
  | [] =>
    rw [List.nil_append, parse.eq_def (lineBreak :: later), parse]
    dsimp only
    rw [if_pos h]
    exact (bind_pure (parse later)).symm
  | token :: rest =>
    rw [List.cons_append, parse.eq_def (token :: rest), parse.eq_def]
    dsimp only
    split
    · exact parse_append rest lineBreak h later
    split
    · rfl
    match rest with
    | [] =>
      -- the break ends an instruction without arguments as the end of the program does
      simp only [List.nil_append, isColon_of_isBreak lineBreak h, h, Bool.false_eq_true, if_false,
        if_true]
      rfl
    | next :: rest =>
      simp only [List.cons_append]
      split
      · rw [parse_append rest lineBreak h later]
        exact cons_bind_append _ _ _
      split
      · rw [parse_append rest lineBreak h later]
        exact cons_bind_append _ _ _
      split
      · exact parseArgs_append token [next] rest lineBreak h later
      · rfl
termination_by tokens.length

theorem parseArgs_append (name : Token) (args tokens : List Token) (lineBreak : Token)
    (h : lineBreak.isBreak = true) (later : List Token) :
    parseArgs name args (tokens ++ lineBreak :: later) = (do
      let front ← parseArgs name args tokens
      let rest ← parse later
      return front ++ rest) := by
  match tokens with
  | [] =>
    rw [List.nil_append, parseArgs.eq_def name args (lineBreak :: later), parseArgs]
    dsimp only
    rw [if_pos h]
    rfl
  | token :: rest =>
    rw [List.cons_append, parseArgs.eq_def name args (token :: rest), parseArgs.eq_def]
    dsimp only
    split
    · rw [parse_append rest lineBreak h later]
      exact cons_bind_append _ _ _
    split
    · rfl
    match rest with
    | [] =>
      -- an argument is missing in front of the break as it is at the end of the program
      simp only [List.nil_append, h, if_true]
      rfl
    | next :: rest =>
      simp only [List.cons_append]
      split
      · rfl
      split
      · exact parseArgs_append name (args ++ [next]) rest lineBreak h later
      · rfl
termination_by tokens.length

end

/-- Arguments with a comma before each are parsed in order. -/
theorem parseArgs_commas (name : Token) (args : List Token) (more : List (Token × Token))
    (rest : List Token)
    (hmore : ∀ entry ∈ more, entry.1.isComma = true ∧ entry.2.isArgument = true) :
    parseArgs name args ((more.flatMap fun entry => [entry.1, entry.2]) ++ rest) =
      parseArgs name (args ++ more.map Prod.snd) rest := by
  -- the arguments parsed so far are an accumulator
  induction more generalizing args with
  | nil => rw [List.flatMap_nil, List.nil_append, List.map_nil, List.append_nil]
  | cons entry more ih =>
    obtain ⟨⟨hcomma, harg⟩, hmore⟩ := List.forall_mem_cons.mp hmore
    obtain ⟨hbreak, -⟩ := not_isBreak_of_isArgument entry.2 harg
    rw [List.flatMap_cons, List.append_assoc, List.cons_append, List.cons_append, List.nil_append,
      parseArgs]
    simp only [isBreak_of_isComma _ hcomma, hcomma, hbreak, harg, Bool.false_eq_true, if_false,
      if_true, Bool.not_true]
    rw [ih (args ++ [entry.2]) hmore, List.append_assoc]
    rfl

theorem intersperse_eq_flatMap (separator arg : Token) (args : List Token) :
    (arg :: args).intersperse separator = arg :: args.flatMap fun other => [separator, other] := by
  induction args generalizing arg with
  | nil => rfl
  | cons other args ih => rw [List.intersperse_cons_cons, ih, List.flatMap_cons]; rfl

/-- A name on its own is an instruction without arguments. -/
theorem parse_name (name : Token) (hname : name.kind = .identifier) :
    parse [name] = .ok [unplaced .instruction name []] := by
  have hbreak : name.isBreak = false := by simp [Token.isBreak, hname]
  rw [parse, hbreak, if_neg Bool.false_ne_true, if_neg (not_not.mpr hname)]

/-- A name with arguments behind it is an instruction with those arguments. -/
theorem parse_call (name arg : Token) (more : List (Token × Token))
    (hname : name.kind = .identifier) (harg : arg.isArgument = true)
    (hmore : ∀ entry ∈ more, entry.1.isComma = true ∧ entry.2.isArgument = true) :
    parse (name :: arg :: more.flatMap fun entry => [entry.1, entry.2]) =
      .ok [unplaced .instruction name (arg :: more.map Prod.snd)] := by
  have hbreak : name.isBreak = false := by simp [Token.isBreak, hname]
  obtain ⟨hbreak', hcolon⟩ := not_isBreak_of_isArgument arg harg
  rw [parse, hbreak, if_neg Bool.false_ne_true, if_neg (not_not.mpr hname)]
  simp only [hcolon, hbreak', harg, Bool.false_eq_true, if_false, if_true]
  have hargs := parseArgs_commas name [arg] more [] hmore
  rw [List.append_nil, parseArgs] at hargs
  exact hargs

/-- A name with a colon behind it is a label. -/
theorem parse_label (name colon : Token) (hname : name.kind = .identifier)
    (hcolon : colon.isColon = true) (rest : List Token) :
    parse (name :: colon :: rest) = (do
      let statements ← parse rest
      return unplaced .label name [] :: statements) := by
  have hbreak : name.isBreak = false := by simp [Token.isBreak, hname]
  rw [parse, hbreak, if_neg Bool.false_ne_true, if_neg (not_not.mpr hname)]
  exact if_pos hcolon

/-- The tokens of a statement parse to it. -/
theorem parse_tokens (statement : Statement) (h : statement.Written) (rest : List Token)
    (statements : List Statement) (hrest : parse rest = .ok statements) :
    parse (statement.tokens ++ rest) = .ok (statement :: statements) := by
  cases h with
  | label name hname =>
    change parse (name :: Token.colon :: rest) = _
    rw [parse_label name Token.colon hname (by decide), hrest]
    rfl
  | instruction name args hname hargs =>
    have htokens : (unplaced .instruction name args).tokens ++ rest =
        (name :: args.intersperse Token.comma) ++ Token.lineBreak :: rest := by
      rw [tokens, if_neg (by exact nofun), List.append_assoc]
      rfl
    have hcall : parse (name :: args.intersperse Token.comma) =
        .ok [unplaced .instruction name args] := by
      cases args with
      | nil => exact parse_name name hname
      | cons arg args =>
        obtain ⟨harg, hargs⟩ := List.forall_mem_cons.mp hargs
        have hmore : ∀ entry ∈ args.map fun other => (Token.comma, other),
            entry.1.isComma = true ∧ entry.2.isArgument = true := by
          intro entry hentry
          obtain ⟨other, hother, rfl⟩ := List.mem_map.mp hentry
          exact ⟨rfl, hargs other hother⟩
        have hparse := parse_call name arg _ hname harg hmore
        rw [List.flatMap_map, List.map_map] at hparse
        rw [intersperse_eq_flatMap, hparse]
        exact congrArg (fun args => Except.ok [unplaced .instruction name (arg :: args)])
          (List.map_id args)
    rw [htokens, parse_append _ _ (by decide), hcall, hrest]
    rfl

/-- A statement in front of others that are parsed later. -/
theorem bind_of_bare (statement : Statement) (later later' : Except Error (List Statement))
    (statements : List Statement)
    (hlater : ∀ statements, later' = .ok statements →
      ∃ parsed, later = .ok parsed ∧ parsed.map bare = statements)
    (h : (later' >>= fun parsed => pure (statement.bare :: parsed)) = .ok statements) :
    ∃ parsed, (later >>= fun parsed => pure (statement :: parsed)) = .ok parsed ∧
      parsed.map bare = statements := by
  obtain ⟨statements', hstatements', h⟩ := bind_eq_ok_iff.mp h
  cases h
  obtain ⟨parsed, hparsed, hbare⟩ := hlater statements' hstatements'
  exact ⟨statement :: parsed, bind_eq_ok_iff.mpr ⟨parsed, hparsed, rfl⟩,
    by rw [List.map_cons, hbare]⟩

mutual

/-- Tokens parse as they do without their positions. -/
theorem parse_of_bare (tokens : List Token) (statements : List Statement)
    (h : parse (tokens.map Token.bare) = .ok statements) :
    ∃ parsed, parse tokens = .ok parsed ∧ parsed.map bare = statements := by
  match tokens with
  | [] =>
    cases h
    exact ⟨[], by rw [parse], rfl⟩
  | token :: rest =>
    -- every test of the parser is on kind and text, which the bare token has as well
    rw [List.map_cons, parse.eq_def] at h
    rw [parse.eq_def]
    change (if token.isBreak then _ else if token.kind ≠ .identifier then _ else _) = _ at h
    dsimp only
    split at h
    · rw [if_pos ‹_›]
      exact parse_of_bare rest statements h
    rw [if_neg ‹_›]
    split at h
    · cases h
    rw [if_neg ‹_›]
    cases rest with
    | nil =>
      cases h
      exact ⟨_, rfl, rfl⟩
    | cons next rest =>
      change (if next.isColon then _ else if next.isBreak then _ else if next.isArgument then _
        else _) = _ at h
      dsimp only
      split at h
      · rw [if_pos ‹_›]
        exact bind_of_bare (unplaced .label token []) _ _ _ (parse_of_bare rest) h
      rw [if_neg ‹_›]
      split at h
      · rw [if_pos ‹_›]
        exact bind_of_bare (unplaced .instruction token []) _ _ _ (parse_of_bare rest) h
      rw [if_neg ‹_›]
      split at h
      · rw [if_pos ‹_›]
        exact parseArgs_of_bare token [next] rest statements h
      · cases h
termination_by tokens.length

theorem parseArgs_of_bare (name : Token) (args tokens : List Token) (statements : List Statement)
    (h : parseArgs name.bare (args.map Token.bare) (tokens.map Token.bare) = .ok statements) :
    ∃ parsed, parseArgs name args tokens = .ok parsed ∧ parsed.map bare = statements := by
  match tokens with
  | [] =>
    rw [List.map_nil, parseArgs.eq_def] at h
    cases h
    exact ⟨_, by rw [parseArgs.eq_def], rfl⟩
  | token :: rest =>
    rw [List.map_cons, parseArgs.eq_def] at h
    rw [parseArgs.eq_def]
    change (if token.isBreak then _ else if !token.isComma then _ else _) = _ at h
    dsimp only
    split at h
    · rw [if_pos ‹_›]
      exact bind_of_bare (unplaced .instruction name args) _ _ _ (parse_of_bare rest) h
    rw [if_neg ‹_›]
    split at h
    · cases h
    rw [if_neg ‹_›]
    cases rest with
    | nil => cases h
    | cons next rest =>
      change (if next.isBreak then _ else if next.isArgument then _ else _) = _ at h
      dsimp only
      split at h
      · cases h
      rw [if_neg ‹_›]
      split at h
      · rw [if_pos ‹_›]
        refine parseArgs_of_bare name (args ++ [next]) rest statements ?_
        rw [List.map_append]
        exact h
      · cases h
termination_by tokens.length

end

end Statement

end WordAsm
