import WordAsm.Proofs.Outcomes
import WordAsm.Proofs.Parsing

/-! The grammar of programs. A derivation keeps all the tokens that it derives, commas and line
breaks included, and says which statements they make up. The parser accepts exactly the tokens that
have a derivation, and no tokens have two. -/

namespace WordAsm

/-- A list is split in one way only at the first of its elements that have a property. -/
theorem split_at_first {α : Type} (p : α → Bool) (front front' rest rest' : List α) (a a' : α)
    (hfront : ∀ x ∈ front, p x = false) (hfront' : ∀ x ∈ front', p x = false)
    (ha : p a = true) (ha' : p a' = true) (h : front ++ a :: rest = front' ++ a' :: rest') :
    front = front' ∧ a = a' ∧ rest = rest' := by
  have hnot (b : α) (hb : p b = true) (hb' : p b = false) : False :=
    Bool.false_ne_true (hb'.symm.trans hb)
  induction front generalizing front' with
  | nil =>
    cases front' with
    | nil => exact ⟨rfl, List.cons.inj h⟩
    | cons b front' =>
      obtain ⟨rfl, -⟩ := List.cons.inj h
      exact (hnot a ha (hfront' a List.mem_cons_self)).elim
  | cons b front ih =>
    obtain ⟨hb, hfront⟩ := List.forall_mem_cons.mp hfront
    cases front' with
    | nil =>
      obtain ⟨rfl, -⟩ := List.cons.inj h
      exact (hnot b ha' hb).elim
    | cons b' front' =>
      obtain ⟨rfl, hsplit⟩ := List.cons.inj h
      obtain ⟨rfl, hrest⟩ := ih front' hfront (List.forall_mem_cons.mp hfront').2 hsplit
      exact ⟨rfl, hrest⟩

namespace Statement

/-- A token that can stand as an argument. -/
abbrev Argument : Type :=
  { token : Token //
    token.kind ∈ [.number, .identifier, .register, .condition, .specialRegister, .string] }

abbrev Comma : Type := { token : Token // token.kind = .punctuation ∧ token.text = "," }

abbrev Colon : Type := { token : Token // token.kind = .punctuation ∧ token.text = ":" }

abbrev LineBreak : Type := { token : Token // token.kind = .lineBreak }

/-- The name of a label or of an instruction. -/
abbrev Name : Type := { token : Token // token.kind = .identifier }

theorem isArgument_iff (token : Token) : token.isArgument = true ↔
    token.kind ∈ [.number, .identifier, .register, .condition, .specialRegister, .string] := by
  rw [Token.isArgument]
  cases token.kind <;> simp

theorem isComma_iff (token : Token) :
    token.isComma = true ↔ token.kind = .punctuation ∧ token.text = "," := by
  rw [Token.isComma, Bool.and_eq_true, beq_iff_eq, beq_iff_eq]

theorem isColon_iff (token : Token) :
    token.isColon = true ↔ token.kind = .punctuation ∧ token.text = ":" := by
  rw [Token.isColon, Bool.and_eq_true, beq_iff_eq, beq_iff_eq]

theorem isBreak_iff (token : Token) : token.isBreak = true ↔ token.kind = .lineBreak := by
  rw [Token.isBreak, beq_iff_eq]

theorem Argument.isArgument (arg : Argument) : arg.val.isArgument = true :=
  (isArgument_iff arg).mpr arg.2

theorem Comma.isComma (comma : Comma) : comma.val.isComma = true :=
  (isComma_iff comma).mpr comma.2

theorem Colon.isColon (colon : Colon) : colon.val.isColon = true :=
  (isColon_iff colon).mpr colon.2

theorem LineBreak.isBreak (lineBreak : LineBreak) : lineBreak.val.isBreak = true :=
  (isBreak_iff lineBreak).mpr lineBreak.2

theorem isBreak_of_name (name : Name) : name.val.isBreak = false := by
  rw [Token.isBreak, name.2]
  rfl

/-- The arguments of an instruction, each but the first behind a comma. -/
structure Operands where
  first : Argument
  more : List (Comma × Argument)

/-- An instruction as it is written: a name and arguments, if it has any. -/
structure Call where
  name : Name
  operands : Option Operands

/-- A derivation of a program. An instruction ends at the end of the program or at a line break; a
label ends at its colon. -/
inductive Derivation where
  | empty
  | lineBreak (token : LineBreak) (rest : Derivation)
  | label (name : Name) (colon : Colon) (rest : Derivation)
  | last (call : Call)
  | line (call : Call) (token : LineBreak) (rest : Derivation)

namespace Operands

def tokens (operands : Operands) : List Token :=
  operands.first :: operands.more.flatMap fun entry => [entry.1.val, entry.2.val]

/-- The arguments without their commas. -/
def args (operands : Operands) : List Token :=
  operands.first :: operands.more.map fun entry => entry.2.val

/-- One argument more. -/
def snoc (operands : Operands) (comma : Comma) (arg : Argument) : Operands :=
  { operands with more := operands.more ++ [(comma, arg)] }

theorem tokens_snoc (operands : Operands) (comma : Comma) (arg : Argument) :
    (operands.snoc comma arg).tokens = operands.tokens ++ [comma.val, arg.val] := by
  rw [tokens, snoc, List.flatMap_append]
  rfl

theorem args_snoc (operands : Operands) (comma : Comma) (arg : Argument) :
    (operands.snoc comma arg).args = operands.args ++ [arg.val] := by
  rw [args, snoc, List.map_append]
  rfl

/-- No token of the arguments ends the line. -/
theorem isBreak_of_mem (operands : Operands) (token : Token) (h : token ∈ operands.tokens) :
    token.isBreak = false := by
  rcases List.mem_cons.mp h with rfl | h
  · exact (not_isBreak_of_isArgument _ operands.first.isArgument).1
  · obtain ⟨entry, -, h⟩ := List.mem_flatMap.mp h
    rcases List.mem_pair.mp h with rfl | rfl
    · exact isBreak_of_isComma _ entry.1.isComma
    · exact (not_isBreak_of_isArgument _ entry.2.isArgument).1

theorem separated_injective (more more' : List (Comma × Argument))
    (h : (more.flatMap fun entry => [entry.1.val, entry.2.val]) =
      more'.flatMap fun entry => [entry.1.val, entry.2.val]) : more = more' := by
  induction more generalizing more' with
  | nil =>
    cases more' with
    | nil => rfl
    | cons => cases h
  | cons entry more ih =>
    cases more' with
    | nil => cases h
    | cons entry' more' =>
      simp only [List.flatMap_cons, List.cons_append, List.nil_append, List.cons.injEq] at h
      obtain ⟨hcomma, harg, hmore⟩ := h
      rw [ih more' hmore, Prod.ext (Subtype.ext hcomma) (Subtype.ext harg)]

theorem tokens_injective (operands operands' : Operands)
    (h : operands.tokens = operands'.tokens) : operands = operands' := by
  obtain ⟨hfirst, hmore⟩ := List.cons.inj h
  have hsame := separated_injective _ _ hmore
  cases operands
  cases operands'
  cases Subtype.ext hfirst
  cases hsame
  rfl

end Operands

namespace Call

def tokens (call : Call) : List Token :=
  call.name :: call.operands.elim [] Operands.tokens

def statement (call : Call) : Statement :=
  unplaced .instruction call.name (call.operands.elim [] Operands.args)

theorem isBreak_of_mem (call : Call) (token : Token) (h : token ∈ call.tokens) :
    token.isBreak = false := by
  rcases List.mem_cons.mp h with rfl | h
  · exact isBreak_of_name call.name
  · cases hoperands : call.operands with
    | none =>
      rw [hoperands] at h
      cases h
    | some operands =>
      rw [hoperands] at h
      exact operands.isBreak_of_mem token h

/-- Behind the name of an instruction there is no colon. -/
theorem isColon_of_second (call : Call) (name second : Token) (rest later : List Token)
    (hlater : ∀ token ∈ later.head?, token.isBreak = true)
    (h : call.tokens ++ later = name :: second :: rest) :
    second.isColon = false := by
  rw [tokens] at h
  cases hoperands : call.operands with
  | none =>
    rw [hoperands] at h
    obtain ⟨-, rfl⟩ := List.cons.inj h
    exact isColon_of_isBreak second (hlater second rfl)
  | some operands =>
    rw [hoperands] at h
    obtain ⟨-, h⟩ := List.cons.inj h
    obtain ⟨rfl, -⟩ := List.cons.inj h
    exact (not_isBreak_of_isArgument _ operands.first.isArgument).2

theorem tokens_injective (call call' : Call) (h : call.tokens = call'.tokens) : call = call' := by
  obtain ⟨name, operands⟩ := call
  obtain ⟨name', operands'⟩ := call'
  obtain ⟨hname, h⟩ := List.cons.inj h
  cases Subtype.ext hname
  cases operands with
  | none =>
    cases operands' with
    | none => rfl
    | some => cases h
  | some operands =>
    cases operands' with
    | none => cases h
    | some operands' => rw [operands.tokens_injective operands' h]

/-- The tokens of an instruction parse to it. -/
theorem parse_tokens (call : Call) : parse call.tokens = .ok [call.statement] := by
  obtain ⟨name, operands⟩ := call
  cases operands with
  | none => exact parse_name name name.2
  | some operands =>
    have hmore : ∀ entry ∈ operands.more.map fun entry => (entry.1.val, entry.2.val),
        entry.1.isComma = true ∧ entry.2.isArgument = true := by
      intro entry hentry
      obtain ⟨source, -, rfl⟩ := List.mem_map.mp hentry
      exact ⟨source.1.isComma, source.2.isArgument⟩
    have hparse := parse_call name operands.first _ name.2 operands.first.isArgument hmore
    rw [List.flatMap_map, List.map_map] at hparse
    exact hparse

end Call

namespace Derivation

/-- The tokens that are derived. -/
def tokens : Derivation → List Token
  | empty => []
  | lineBreak token rest => token.val :: rest.tokens
  | label name colon rest => name.val :: colon.val :: rest.tokens
  | last call => call.tokens
  | line call token rest => call.tokens ++ token.val :: rest.tokens

/-- The statements that they make up. -/
def statements : Derivation → List Statement
  | empty => []
  | lineBreak _ rest => rest.statements
  | label name _ rest => unplaced .label name [] :: rest.statements
  | last call => [call.statement]
  | line call _ rest => call.statement :: rest.statements

/-- What is derived is parsed to the statements it makes up. -/
theorem parse_tokens (derivation : Derivation) :
    parse derivation.tokens = .ok derivation.statements := by
  induction derivation with
  | empty => rw [tokens, parse, statements]
  | lineBreak token rest ih =>
    rw [tokens, parse.eq_def]
    exact (if_pos token.isBreak).trans ih
  | label name colon rest ih =>
    rw [tokens, parse_label name colon name.2 colon.isColon, ih]
    rfl
  | last call => exact call.parse_tokens
  | line call token rest ih =>
    rw [tokens, parse_append _ _ token.isBreak, call.parse_tokens, ih]
    rfl

theorem eq_empty (derivation : Derivation) (h : derivation.tokens = []) : derivation = .empty := by
  cases derivation with
  | empty => rfl
  | lineBreak | label | last | line => cases h

theorem eq_lineBreak (derivation : Derivation) (token : LineBreak) (rest : List Token)
    (h : derivation.tokens = token.val :: rest) :
    ∃ behind : Derivation, derivation = .lineBreak token behind ∧ behind.tokens = rest := by
  have hname (name : Name) : name.val ≠ token.val := by
    intro heq
    have hbreak := token.isBreak
    rw [← heq, isBreak_of_name name] at hbreak
    cases hbreak
  cases derivation with
  | empty => cases h
  | lineBreak token' behind =>
    obtain ⟨htoken, hbehind⟩ := List.cons.inj h
    exact ⟨behind, by rw [Subtype.ext htoken], hbehind⟩
  | label name => exact absurd (List.cons.inj h).1 (hname name)
  | last call => exact absurd (List.cons.inj h).1 (hname call.name)
  | line call => exact absurd (List.cons.inj h).1 (hname call.name)

/-- Tokens that start with an instruction are derived from that instruction. -/
theorem eq_last_or_line (derivation : Derivation) (call : Call) (rest : List Token)
    (hrest : ∀ token ∈ rest.head?, token.isBreak = true)
    (h : derivation.tokens = call.tokens ++ rest) :
    rest = [] ∧ derivation = .last call ∨
      ∃ token behind, derivation = .line call token behind ∧ rest = token.val :: behind.tokens := by
  -- a token that ends the line is not one of an instruction
  have hbreak (other : Call) (token : Token) (htoken : token.isBreak = true) :
      token ∉ other.tokens := by
    intro hmem
    rw [other.isBreak_of_mem token hmem] at htoken
    cases htoken
  cases derivation with
  | empty => cases h
  | lineBreak token behind =>
    obtain ⟨htoken, -⟩ := List.cons.inj h
    exact absurd (htoken ▸ List.mem_cons_self) (hbreak call token token.isBreak)
  | label name colon behind =>
    have hcolon := call.isColon_of_second name colon behind.tokens rest hrest h.symm
    rw [colon.isColon] at hcolon
    cases hcolon
  | last other =>
    cases rest with
    | nil =>
      rw [List.append_nil] at h
      exact .inl ⟨rfl, by rw [other.tokens_injective call h]⟩
    | cons token rest =>
      have hmem : token ∈ other.tokens := by
        change other.tokens = _ at h
        rw [h]
        exact List.mem_append_right _ List.mem_cons_self
      exact absurd hmem (hbreak other token (hrest token rfl))
  | line other token behind =>
    cases rest with
    | nil =>
      have hmem : token.val ∈ call.tokens := by
        rw [List.append_nil] at h
        rw [← h]
        exact List.mem_append_right _ List.mem_cons_self
      exact absurd hmem (hbreak call token token.isBreak)
    | cons token' rest =>
      obtain ⟨hcall, htoken, hbehind⟩ := split_at_first Token.isBreak _ call.tokens _ _ _ _
        other.isBreak_of_mem call.isBreak_of_mem token.isBreak (hrest token' rfl) h
      exact .inr ⟨token, behind, by rw [other.tokens_injective call hcall],
        by rw [htoken, hbehind]⟩

theorem eq_label (derivation : Derivation) (name : Name) (colon : Colon) (rest : List Token)
    (h : derivation.tokens = name.val :: colon.val :: rest) :
    ∃ behind : Derivation, derivation = .label name colon behind ∧ behind.tokens = rest := by
  have hcall (call : Call) (later : List Token)
      (hlater : ∀ token ∈ later.head?, token.isBreak = true)
      (heq : call.tokens ++ later = name.val :: colon.val :: rest) : False := by
    have hcolon := call.isColon_of_second name colon rest later hlater heq
    rw [colon.isColon] at hcolon
    cases hcolon
  cases derivation with
  | empty => cases h
  | lineBreak token behind =>
    obtain ⟨htoken, -⟩ := List.cons.inj h
    have hbreak := token.isBreak
    rw [htoken, isBreak_of_name name] at hbreak
    cases hbreak
  | label name' colon' behind =>
    obtain ⟨hname, h⟩ := List.cons.inj h
    obtain ⟨hcolon, hbehind⟩ := List.cons.inj h
    exact ⟨behind, by rw [Subtype.ext hname, Subtype.ext hcolon], hbehind⟩
  | last call =>
    refine (hcall call [] ?_ (by rw [List.append_nil]; exact h)).elim
    rintro _ ⟨⟩
  | line call token behind =>
    refine (hcall call (token.val :: behind.tokens) ?_ h).elim
    rintro _ ⟨⟩
    exact token.isBreak

/-- Tokens have at most one derivation. -/
theorem tokens_injective (derivation derivation' : Derivation)
    (h : derivation.tokens = derivation'.tokens) : derivation = derivation' := by
  induction derivation generalizing derivation' with
  | empty => exact (eq_empty derivation' h.symm).symm
  | lineBreak token rest ih =>
    obtain ⟨behind, rfl, hbehind⟩ := eq_lineBreak derivation' token rest.tokens h.symm
    rw [ih behind hbehind.symm]
  | label name colon rest ih =>
    obtain ⟨behind, rfl, hbehind⟩ := eq_label derivation' name colon rest.tokens h.symm
    rw [ih behind hbehind.symm]
  | last call =>
    have hend : ∀ token ∈ ([] : List Token).head?, token.isBreak = true := by
      rintro _ ⟨⟩
    have hcall : derivation'.tokens = call.tokens ++ [] := by rw [List.append_nil]; exact h.symm
    obtain ⟨-, rfl⟩ | ⟨token, behind, -, hnil⟩ := eq_last_or_line derivation' call [] hend hcall
    · rfl
    · cases hnil
  | line call token rest ih =>
    have htoken : ∀ other ∈ (token.val :: rest.tokens).head?, other.isBreak = true := by
      rintro _ ⟨⟩
      exact token.isBreak
    obtain ⟨hnil, -⟩ | ⟨token', behind, rfl, hbehind⟩ :=
      eq_last_or_line derivation' call _ htoken h.symm
    · cases hnil
    · obtain ⟨hsame, hrest⟩ := List.cons.inj hbehind
      rw [ih behind hrest, Subtype.ext hsame]

mutual

/-- What is parsed has a derivation, and what is not is a fault of the grammar. -/
theorem ends_parse_derived (tokens : List Token) :
    Ends (fun statements => ∃ derivation : Derivation,
        derivation.tokens = tokens ∧ derivation.statements = statements)
      (fun e => e.fault.kind = .grammatical) (parse tokens) := by
  rw [parse.eq_def]
  match tokens with
  | [] => exact ⟨.empty, rfl, rfl⟩
  | token :: rest =>
    dsimp only
    split
    · rename_i hbreak
      apply (ends_parse_derived rest).imp
      · rintro _ - ⟨behind, rfl, rfl⟩
        exact ⟨.lineBreak ⟨token, (isBreak_iff token).mp hbreak⟩ behind, rfl, rfl⟩
      · exact fun _ _ h => h
    split
    · rfl
    rename_i hname
    rw [not_not] at hname
    match rest with
    | [] => exact ⟨.last ⟨⟨token, hname⟩, none⟩, rfl, rfl⟩
    | next :: rest =>
      dsimp only
      split
      · rename_i hcolon
        apply (ends_parse_derived rest).bind
        rintro _ - ⟨behind, rfl, rfl⟩
        exact ⟨.label ⟨token, hname⟩ ⟨next, (isColon_iff next).mp hcolon⟩ behind, rfl, rfl⟩
      split
      · rename_i hbreak
        apply (ends_parse_derived rest).bind
        rintro _ - ⟨behind, rfl, rfl⟩
        exact ⟨.line ⟨⟨token, hname⟩, none⟩ ⟨next, (isBreak_iff next).mp hbreak⟩ behind, rfl, rfl⟩
      split
      · rename_i harg
        exact ends_parseArgs_derived ⟨token, hname⟩
          ⟨⟨next, (isArgument_iff next).mp harg⟩, []⟩ rest
      · rfl
termination_by tokens.length

theorem ends_parseArgs_derived (name : Name) (operands : Operands)
    (tokens : List Token) :
    Ends (fun statements => ∃ derivation : Derivation,
        derivation.tokens = name.val :: operands.tokens ++ tokens ∧
          derivation.statements = statements)
      (fun e => e.fault.kind = .grammatical) (parseArgs name operands.args tokens) := by
  rw [parseArgs.eq_def]
  match tokens with
  | [] =>
    refine ⟨.last ⟨name, some operands⟩, ?_, rfl⟩
    rw [List.append_nil]
    rfl
  | token :: rest =>
    dsimp only
    split
    · rename_i hbreak
      apply (ends_parse_derived rest).bind
      rintro _ - ⟨behind, rfl, rfl⟩
      exact ⟨.line ⟨name, some operands⟩ ⟨token, (isBreak_iff token).mp hbreak⟩ behind, rfl, rfl⟩
    split
    · rfl
    rename_i hcomma
    rw [Bool.not_eq_true', Bool.not_eq_false] at hcomma
    match rest with
    | [] => rfl
    | next :: rest =>
      dsimp only
      split
      · rfl
      split
      · rename_i harg
        have hmore := ends_parseArgs_derived name (operands.snoc
          ⟨token, (isComma_iff token).mp hcomma⟩ ⟨next, (isArgument_iff next).mp harg⟩) rest
        rw [Operands.args_snoc, Operands.tokens_snoc] at hmore
        apply hmore.imp
        · rintro _ - ⟨derivation, htokens, rfl⟩
          refine ⟨derivation, ?_, rfl⟩
          rw [htokens, List.cons_append, List.append_assoc]
          rfl
        · exact fun _ _ h => h
      · rfl
termination_by tokens.length

end

end Derivation

/-- Statements that can be written down are parsed back from their tokens. -/
theorem parse_written (statements : List Statement)
    (h : ∀ statement ∈ statements, statement.Written) :
    parse (statements.flatMap tokens) = .ok statements := by
  induction statements with
  | nil => rw [List.flatMap_nil, parse]
  | cons statement statements ih =>
    obtain ⟨hstatement, hrest⟩ := List.forall_mem_cons.mp h
    rw [List.flatMap_cons]
    exact parse_tokens statement hstatement _ statements (ih hrest)

end Statement

/-- The parser returns exactly the statements that the tokens derive, and for tokens that have no
derivation a fault of the grammar. There is never more than one derivation, and statements that are
written down are parsed back. -/
theorem parser_accepts_grammar :
    (∀ tokens statements, Statement.parse tokens = .ok statements ↔
      ∃ derivation : Statement.Derivation,
        derivation.tokens = tokens ∧ derivation.statements = statements) ∧
    (∀ tokens, (¬ ∃ derivation : Statement.Derivation, derivation.tokens = tokens) →
      ∃ e, Statement.parse tokens = .error e ∧ e.fault.kind = .grammatical) ∧
    (∀ derivation derivation' : Statement.Derivation,
      derivation.tokens = derivation'.tokens → derivation = derivation') ∧
    (∀ statements : List Statement, (∀ statement ∈ statements, statement.Written) →
      Statement.parse (statements.flatMap Statement.tokens) = .ok statements) := by
  refine ⟨?_, ?_, Statement.Derivation.tokens_injective, Statement.parse_written⟩
  · intro tokens statements
    constructor
    · exact (Statement.Derivation.ends_parse_derived tokens).of_ok
    · rintro ⟨derivation, rfl, rfl⟩
      exact derivation.parse_tokens
  · intro tokens hnone
    have hends := Statement.Derivation.ends_parse_derived tokens
    cases hparse : Statement.parse tokens with
    | ok statements =>
      obtain ⟨derivation, hderivation, -⟩ := hends.of_ok hparse
      exact absurd ⟨derivation, hderivation⟩ hnone
    | error e => exact ⟨e, rfl, hends.of_error hparse⟩

/-- Two labels that share their line with an instruction, and an instruction that the program ends
with. -/
def sharedLine : List Token :=
  let token (kind : Token.Kind) (text : String) : Token := .plain kind text (.start "")
  [token .identifier "start", token .punctuation ":", token .identifier "mov",
    token .punctuation ":", token .identifier "mov", token .register "r1",
    token .punctuation ",", token .identifier "start", token .lineBreak "\n",
    token .lineBreak "\n", token .identifier "ret"]

/-- A label and two numbers. -/
def labelledNumbers : List Statement :=
  let name (text : String) : Token := .plain .identifier text (.start "")
  [.unplaced .label (name "table") [],
    .unplaced .instruction (name "dw") [.ofValue 1 (.start ""), .ofValue 2 (.start "")]]

/-- The tokens derive two labels and two instructions, and cut off behind the comma they derive
nothing. -/
theorem sharedLine_derived :
    (∃ derivation : Statement.Derivation, derivation.tokens = sharedLine ∧
      derivation.statements.map Statement.kind =
        [.label, .label, .instruction, .instruction]) ∧
    (∃ e, Statement.parse (sharedLine.take 7) = .error e ∧ e.fault.kind = .grammatical) ∧
    Statement.parse (labelledNumbers.flatMap Statement.tokens) = .ok labelledNumbers := by
  obtain ⟨hparse, hfails, -, hwritten⟩ := parser_accepts_grammar
  refine ⟨?_, ?_, ?_⟩
  · have hrun : (Statement.parse sharedLine).toOption.any (fun statements =>
        statements.map Statement.kind = [.label, .label, .instruction, .instruction]) = true := by
      decide +kernel
    obtain ⟨statements, hstatements, hkinds⟩ := exists_ok_of_any _ _ hrun
    obtain ⟨derivation, htokens, rfl⟩ := (hparse _ _).mp hstatements
    exact ⟨derivation, htokens, of_decide_eq_true hkinds⟩
  · apply hfails
    rintro ⟨derivation, hderivation⟩
    have hok := (hparse _ _).mpr ⟨derivation, hderivation, rfl⟩
    have hfault : (Statement.parse (sharedLine.take 7)).toBool = false := by decide +kernel
    rw [hok] at hfault
    cases hfault
  · apply hwritten
    rw [labelledNumbers, List.forall_mem_cons, List.forall_mem_singleton]
    exact ⟨.label _ rfl, .instruction _ _ rfl (by decide)⟩

end WordAsm
