import WordAsm.Listing.Line
import WordAsm.Proofs.Parsing

/-! The text of a listing. A line may define a label and may hold one statement besides; where the
lexicon leaves its labels and mnemonics alone, the text of the line scans to the tokens of these and
parses to them. -/

namespace WordAsm

open WordAsm.Text

/-- The token of a name that the lexicon does not have. -/
def Token.named (text : String) : Token :=
  Token.plain .identifier text .nowhere

namespace Listing

/-- The label of the string with the number `index`. -/
def stringName (index : Nat) : String :=
  "string" ++ decimal index

/-- The character that a word of a string holds. -/
def charOf (word : UInt16) : Char :=
  Char.ofNat (word.toNat % 256)

variable (lexicon : Lexicon)

def Operand.token : Operand → Token
  | .name text => Token.word lexicon text
  | .number value => Token.ofValue value .nowhere
  | .label address => Token.named (labelName address)

namespace Line

/-- The label that a line defines. -/
def name? : Line → Option String
  | label address => some (labelName address)
  | string index _ _ => some (stringName index)
  | origin _ | code .. | words _ | byte _ => none

/-- The statement of a line besides its label. -/
def body? : Line → Option Statement
  | origin address => some (instruction "org" [.ofHex 4 address.toNat])
  | label _ => none
  | code mnemonic operands => some (instruction mnemonic (operands.map (Operand.token lexicon)))
  | words values => some (instruction "dw" (values.map fun value => .ofHex 4 value.toNat))
  | string _ text terminated =>
    some (instruction "dw" (.plain .string (String.ofList (text.map charOf)) .nowhere ::
      if terminated then [.ofValue 0 .nowhere] else []))
  | byte value => some (instruction "db" [.ofHex 2 value.toNat])
where
  instruction (mnemonic : String) (args : List Token) : Statement :=
    .unplaced .instruction (.named mnemonic) args

/-- The statements of a line. -/
def statements (line : Line) : List Statement :=
  line.name?.toList.map (fun name => .unplaced .label (.named name) []) ++
    (line.body? lexicon).toList

/-- The tokens of a line. -/
def tokens (line : Line) : List Token :=
  (line.statements lexicon).flatMap Statement.tokens ++
    if (line.body? lexicon).isNone then [Token.lineBreak] else []

end Line

/-- The operand is a word, a number or a label that the lexicon does not have. -/
def Operand.Readable : Operand → Prop
  | .name text => Token.isName text = true ∧ (Token.word lexicon text).isArgument = true
  | .number _ => True
  | .label address => lexicon (labelName address) = none

namespace Line

/-- The lexicon has neither the label nor the mnemonic of the line. -/
structure Readable (line : Line) : Prop where
  name : ∀ name ∈ line.name?, lexicon name = none
  body : ∀ body ∈ line.body? lexicon, lexicon body.name.text = none ∧
    Token.isName body.name.text = true
  operands : ∀ mnemonic operands, line = code mnemonic operands →
    ∀ operand ∈ operands, operand.Readable lexicon

end Line

theorem isName_labelName (address : UInt64) : Token.isName (labelName address) = true := by
  have hplain : ∀ c ∈ (labelName address).toList, Token.isPlain c = true := by
    intro c hc
    rw [labelName, capitalHex, String.toList_append] at hc
    rcases List.mem_append.mp hc with hc | hc
    · have hall : "loc_".toList.all Token.isPlain = true := by decide
      exact List.all_eq_true.mp hall c hc
    · rw [String.toList_ofList] at hc
      obtain ⟨d, hd, rfl⟩ := List.mem_map.mp hc
      rw [List.leftpad] at hd
      rcases List.mem_append.mp hd with hd | hd
      · rw [(List.mem_replicate.mp hd).2]
        decide
      · exact forall_mem_digits (fun c => Token.isPlain c.toUpper = true) 16 address.toNat
          (by decide) (by decide) d hd
  rw [Token.isName, List.all_eq_true.mpr hplain, labelName, String.toList_append]
  rfl

theorem isName_stringName (index : Nat) : Token.isName (stringName index) = true := by
  have hplain : ∀ c ∈ (stringName index).toList, Token.isPlain c = true := by
    intro c hc
    rw [stringName, decimal, String.toList_append] at hc
    rcases List.mem_append.mp hc with hc | hc
    · have hall : "string".toList.all Token.isPlain = true := by decide
      exact List.all_eq_true.mp hall c hc
    · rw [String.toList_ofList] at hc
      exact forall_mem_digits (fun c => Token.isPlain c = true) 10 index (by decide) (by decide)
        c hc
  rw [Token.isName, List.all_eq_true.mpr hplain, stringName, String.toList_append]
  rfl

theorem labelName_injective (address other : UInt64) (h : labelName address = labelName other) :
    address = other := by
  have htext := congrArg String.toList h
  rw [labelName, labelName, String.toList_append, String.toList_append,
    List.append_cancel_left_eq] at htext
  have hread := congrArg (readDigits 16 0) htext
  rw [readDigits_capitalHex 4 _ address.toNat_lt, readDigits_capitalHex 4 _ other.toNat_lt] at hread
  exact UInt64.toNat_inj.mp (Except.ok.inj hread)

theorem stringName_injective (index other : Nat) (h : stringName index = stringName other) :
    index = other := by
  have htext := congrArg String.toList h
  rw [stringName, stringName, String.toList_append, String.toList_append,
    List.append_cancel_left_eq, decimal, decimal, String.toList_ofList,
    String.toList_ofList] at htext
  exact digits_injective 10 index other (by decide) (by decide) htext

theorem labelName_ne_stringName (address : UInt64) (index : Nat) :
    labelName address ≠ stringName index := by
  intro h
  have htext := congrArg String.toList h
  rw [labelName, stringName, String.toList_append, String.toList_append] at htext
  change 'l' :: _ = 's' :: _ at htext
  exact absurd (List.cons.inj htext).1 (by decide)

variable {lexicon}

/-- A name that the lexicon does not have is a lexeme. -/
theorem lexeme_named (text : String) (hname : Token.isName text = true)
    (hlexicon : lexicon text = none) : Token.Lexeme lexicon text.toList (Token.named text) := by
  have hword : Token.word lexicon text = Token.named text := by
    rw [Token.word, hlexicon]
    rfl
  exact hword ▸ Token.lexeme_word text hname

theorem lexeme_operand (operand : Operand) (h : operand.Readable lexicon) :
    Token.Lexeme lexicon operand.render.toList (operand.token lexicon) := by
  cases operand with
  | name text => exact Token.lexeme_word text h.1
  | number value => exact Token.lexeme_decimal value
  | label address => exact lexeme_named _ (isName_labelName address) h

theorem toList_column (text : String) :
    (column text).toList = text.toList ++ List.replicate (8 - text.toList.length) ' ' := by
  rw [column, String.toList_ofList, List.rightpad]

/-- A mnemonic and arguments behind it, up to the end of the line. -/
theorem scans_instruction (mnemonic : String) (hname : Token.isName mnemonic = true)
    (hlexicon : lexicon mnemonic = none) (texts : List (List Char)) (args : List Token)
    (hargs : List.Forall₂ (Token.Lexeme lexicon) texts args) (rest : List Char)
    (later : List Token) (hrest : Token.Scans lexicon rest later) :
    Token.Scans lexicon ((column mnemonic).toList ++ ' ' :: ([',', ' '].intercalate texts ++
      '\n' :: rest)) (Token.named mnemonic :: args.intersperse Token.comma ++
        Token.lineBreak :: later) := by
  rw [toList_column, List.append_assoc]
  refine lexeme_named mnemonic hname hlexicon _ _ ?_ (Token.Scans.spaces ?_ _)
  · generalize 8 - mnemonic.toList.length = count
    cases count with
    | zero => exact Token.stops_cons ' ' _ (by decide)
    | succ count => exact Token.stops_cons ' ' _ (by decide)
  · refine Token.Scans.space (Token.scans_intercalate texts args hargs _ _ ?_ hrest.lineBreak)
    exact Token.stops_cons '\n' rest (by decide)

theorem scans_indented (mnemonic : String) (hname : Token.isName mnemonic = true)
    (hlexicon : lexicon mnemonic = none) (texts : List String) (args : List Token)
    (hargs : List.Forall₂ (Token.Lexeme lexicon) (texts.map String.toList) args)
    (rest : List Char) (later : List Token) (hrest : Token.Scans lexicon rest later) :
    Token.Scans lexicon
      (("    " ++ column mnemonic ++ " " ++ ", ".intercalate texts ++ "\n").toList ++ rest)
      (Token.named mnemonic :: args.intersperse Token.comma ++ Token.lineBreak :: later) := by
  have hscan := scans_instruction mnemonic hname hlexicon _ args hargs rest later hrest
  have htext : ("    " ++ column mnemonic ++ " " ++ ", ".intercalate texts ++ "\n").toList ++ rest =
      List.replicate 4 ' ' ++ ((column mnemonic).toList ++ ' ' ::
        ([',', ' '].intercalate (texts.map String.toList) ++ '\n' :: rest)) := by
    simp only [String.toList_append, String.toList_intercalate, List.append_assoc]
    rfl
  rw [htext]
  exact hscan.spaces 4

theorem lexemes_hex (width : Nat) (values : List Nat) (h : ∀ value ∈ values, value < Word.modulus) :
    List.Forall₂ (Token.Lexeme lexicon)
      ((values.map fun value => "0x" ++ hex width value).map String.toList)
      (values.map (Token.ofHex width)) := by
  rw [List.map_map, List.forall₂_map_left_iff, List.forall₂_map_right_iff, List.forall₂_same]
  exact fun value hvalue => Token.lexeme_hex width value (h value hvalue)

theorem toList_literal (text : List UInt16) :
    (literal text).toList = '"' :: (text.map charOf).flatMap Token.escape ++ ['"'] := by
  rw [List.flatMap_map, literal]
  simp only [String.toList_append, String.toList_ofList]
  rfl

/-- The text of a string, and the zero behind it if there is one. -/
theorem lexemes_string (text : List UInt16) (terminated : Bool) :
    List.Forall₂ (Token.Lexeme lexicon)
      ((literal text :: if terminated then ["0"] else []).map String.toList)
      (.plain .string (String.ofList (text.map charOf)) .nowhere ::
        if terminated then [.ofValue 0 .nowhere] else []) := by
  have hzero : decimal 0 = "0" := by
    rw [decimal, digits_of_lt 10 0 (by decide)]
    rfl
  have hliteral : Token.Lexeme lexicon (literal text).toList
      (.plain .string (String.ofList (text.map charOf)) .nowhere) := by
    rw [toList_literal]
    exact Token.lexeme_string _
  cases terminated with
  | false => exact .cons hliteral .nil
  | true => exact .cons hliteral (.cons (hzero ▸ Token.lexeme_decimal 0) .nil)

/-- A string line is its label, filled up to the column of the mnemonic, and a line of data. -/
theorem toList_string (index : Nat) (text : List UInt16) (terminated : Bool) (rest : List Char) :
    (Line.string index text terminated).render.toList ++ rest =
      (stringName index).toList ++ ':' :: (List.replicate
        (8 - (stringName index ++ ":").toList.length) ' ' ++ ' ' :: ((column "dw").toList ++ ' ' ::
          ([',', ' '].intercalate ((literal text :: if terminated then ["0"] else []).map
            String.toList) ++ '\n' :: rest))) := by
  have hend : (literal text).toList ++ (if terminated then ", 0" else "").toList =
      [',', ' '].intercalate
        ((literal text :: if terminated then ["0"] else []).map String.toList) := by
    cases terminated with
    | false => exact (List.append_nil _).trans List.intercalate_singleton.symm
    | true =>
      change _ = [',', ' '].intercalate [(literal text).toList, ['0']]
      rw [List.intercalate_cons_cons, List.intercalate_singleton, List.append_assoc]
      rfl
  rw [← hend]
  change (column (stringName index ++ ":") ++ " " ++ column "dw" ++ " " ++ literal text ++
    (if terminated then ", 0" else "") ++ "\n").toList ++ rest = _
  simp only [String.toList_append, toList_column (stringName index ++ ":"), List.append_assoc]
  rfl

/-- A string line scans to its label and its data. -/
theorem scans_string (index : Nat) (text : List UInt16) (terminated : Bool)
    (hlabel : lexicon (stringName index) = none) (hdw : lexicon "dw" = none)
    (rest : List Char) (later : List Token) (hrest : Token.Scans lexicon rest later) :
    Token.Scans lexicon ((Line.string index text terminated).render.toList ++ rest)
      ((Line.string index text terminated).tokens lexicon ++ later) := by
  have hdata := scans_instruction "dw" (by decide) hdw _ _ (lexemes_string text terminated) rest
    later hrest
  have hname := lexeme_named (stringName index) (isName_stringName index) hlabel _ _
    (Token.stops_cons ':' _ (by decide))
    ((hdata.space).spaces (8 - (stringName index ++ ":").toList.length)).colon
  have htokens : (Line.string index text terminated).tokens lexicon ++ later =
      Token.named (stringName index) :: Token.colon :: (Token.named "dw" ::
        (Token.plain .string (String.ofList (text.map charOf)) .nowhere ::
          if terminated then [Token.ofValue 0 .nowhere] else []).intersperse Token.comma ++
            Token.lineBreak :: later) := by
    cases terminated <;> rfl
  rw [toList_string, htokens]
  exact hname

theorem tokens_of_body (line : Line) (mnemonic : String) (args later : List Token)
    (hname : line.name? = none)
    (hbody : line.body? lexicon = some (Line.body?.instruction mnemonic args)) :
    line.tokens lexicon ++ later =
      Token.named mnemonic :: args.intersperse Token.comma ++ Token.lineBreak :: later := by
  have htokens : (Line.body?.instruction mnemonic args).tokens =
      Token.named mnemonic :: args.intersperse Token.comma ++ [Token.lineBreak] :=
    if_neg (by exact nofun)
  simp only [Line.tokens, Line.statements, hname, hbody, htokens, Option.toList_none,
    Option.toList_some, List.map_nil, List.nil_append, List.flatMap_singleton, Option.isNone_some,
    Bool.false_eq_true, if_false, List.append_nil, List.append_assoc, List.cons_append]

/-- A line with one hexadecimal argument. -/
theorem scans_hexLine (mnemonic : String) (hname : Token.isName mnemonic = true)
    (hlexicon : lexicon mnemonic = none) (width n : Nat) (hn : n < Word.modulus)
    (rest : List Char) (later : List Token) (hrest : Token.Scans lexicon rest later) :
    Token.Scans lexicon
      (("    " ++ column mnemonic ++ " 0x" ++ hex width n ++ "\n").toList ++ rest)
      (Token.named mnemonic :: [Token.ofHex width n].intersperse Token.comma ++
        Token.lineBreak :: later) := by
  have hscan := scans_indented mnemonic hname hlexicon ["0x" ++ hex width n] _
    (lexemes_hex width [n] fun value hvalue => List.mem_singleton.mp hvalue ▸ hn) rest later hrest
  rw [String.intercalate_singleton] at hscan
  simp only [String.toList_append, List.append_assoc] at hscan ⊢
  exact hscan

theorem scans_label (address : UInt64) (hlexicon : lexicon (labelName address) = none)
    (rest : List Char) (later : List Token) (hrest : Token.Scans lexicon rest later) :
    Token.Scans lexicon ((Line.label address).render.toList ++ rest)
      ((Line.label address).tokens lexicon ++ later) := by
  have hscan := lexeme_named _ (isName_labelName address) hlexicon _ _
    (Token.stops_cons ':' _ (by decide)) hrest.lineBreak.colon
  rw [Line.render, String.toList_append, List.append_assoc]
  exact hscan

theorem render_ne_nil (operand : Operand) (h : operand.Readable lexicon) :
    operand.render.toList ≠ [] := by
  cases operand with
  | name text =>
    intro hempty
    have hname := h.1
    rw [Token.isName, show text.toList = [] from hempty] at hname
    cases hname
  | number value =>
    rw [Operand.render, decimal, String.toList_ofList]
    exact digits_ne_nil 10 value.toNat
  | label address =>
    rw [Operand.render, labelName, String.toList_append]
    exact List.cons_ne_nil _ _

theorem scans_code (mnemonic : String) (operands : List Operand)
    (hname : Token.isName mnemonic = true) (hlexicon : lexicon mnemonic = none)
    (hoperands : ∀ operand ∈ operands, operand.Readable lexicon) (rest : List Char)
    (later : List Token) (hrest : Token.Scans lexicon rest later) :
    Token.Scans lexicon ((Line.code mnemonic operands).render.toList ++ rest)
      ((Line.code mnemonic operands).tokens lexicon ++ later) := by
  rw [tokens_of_body _ mnemonic _ later rfl rfl, Line.render]
  -- no operand has an empty text, so the text of the operands is empty only if there are none
  split
  · rename_i hempty
    cases operands with
    | nil =>
      have hscan := lexeme_named mnemonic hname hlexicon _ _
        (Token.stops_cons '\n' _ (by decide)) hrest.lineBreak
      simp only [String.toList_append, List.append_assoc]
      exact hscan.spaces 4
    | cons operand operands =>
      have hne := render_ne_nil operand (hoperands operand List.mem_cons_self)
      have hnil := congrArg String.toList hempty
      rw [String.toList_intercalate, List.map_cons, List.map_cons] at hnil
      cases operands with
      | nil =>
        rw [List.map_nil, List.map_nil, List.intercalate_singleton] at hnil
        exact absurd hnil hne
      | cons =>
        rw [List.map_cons, List.map_cons, List.intercalate_cons_cons] at hnil
        exact absurd (List.append_eq_nil_iff.mp (List.append_eq_nil_iff.mp hnil).1).1 hne
  · refine scans_indented mnemonic hname hlexicon _ _ ?_ rest later hrest
    rw [List.map_map, List.forall₂_map_left_iff, List.forall₂_map_right_iff, List.forall₂_same]
    exact fun operand hoperand => lexeme_operand operand (hoperands operand hoperand)

/-- The text of a line scans to its tokens. -/
theorem Line.scans_render (line : Line) (h : line.Readable lexicon) (rest : List Char)
    (later : List Token) (hrest : Token.Scans lexicon rest later) :
    Token.Scans lexicon (line.render.toList ++ rest) (line.tokens lexicon ++ later) := by
  cases line with
  | origin address =>
    obtain ⟨hlexicon, hname⟩ := h.body _ rfl
    rw [tokens_of_body _ "org" _ later rfl rfl]
    exact scans_hexLine "org" hname hlexicon 4 _ address.toNat_lt rest later hrest
  | label address => exact scans_label address (h.name _ rfl) rest later hrest
  | code mnemonic operands =>
    obtain ⟨hlexicon, hname⟩ := h.body _ rfl
    exact scans_code mnemonic operands hname hlexicon (h.operands _ _ rfl) rest later hrest
  | words values =>
    obtain ⟨hlexicon, hname⟩ := h.body _ rfl
    have hscan := scans_indented "dw" hname hlexicon _ _
      (lexemes_hex 4 (values.map UInt16.toNat) fun value hvalue => by
        obtain ⟨word, -, rfl⟩ := List.mem_map.mp hvalue
        exact word.toNat_lt.trans (by decide)) rest later hrest
    rw [List.map_map, List.map_map] at hscan
    rw [tokens_of_body _ "dw" _ later rfl rfl]
    exact hscan
  | string index text terminated =>
    exact scans_string index text terminated (h.name _ rfl) (h.body _ rfl).1 rest later hrest
  | byte value =>
    obtain ⟨hlexicon, hname⟩ := h.body _ rfl
    rw [tokens_of_body _ "db" _ later rfl rfl]
    exact scans_hexLine "db" hname hlexicon 2 _ (value.toNat_lt.trans (by decide)) rest later hrest

theorem Operand.isArgument_token (operand : Operand) (h : operand.Readable lexicon) :
    (operand.token lexicon).isArgument = true := by
  cases operand with
  | name text => exact h.2
  | number value => rfl
  | label address => rfl

namespace Line

/-- The arguments of a line can stand as such. -/
theorem isArgument_of_body (line : Line) (h : line.Readable lexicon) (body : Statement)
    (hbody : line.body? lexicon = some body) : ∀ arg ∈ body.args, arg.isArgument = true := by
  intro arg harg
  cases line with
  | label address => cases hbody
  | origin address | byte value =>
    cases hbody
    rw [List.mem_singleton.mp harg]
    rfl
  | code mnemonic operands =>
    cases hbody
    obtain ⟨operand, hoperand, rfl⟩ := List.mem_map.mp harg
    exact operand.isArgument_token (h.operands _ _ rfl operand hoperand)
  | words values =>
    cases hbody
    obtain ⟨value, -, rfl⟩ := List.mem_map.mp harg
    rfl
  | string index text terminated =>
    cases hbody
    rcases List.mem_cons.mp harg with rfl | harg
    · rfl
    · cases terminated with
      | false => cases harg
      | true =>
        rw [List.mem_singleton.mp harg]
        rfl

theorem instruction_of_body (line : Line) (body : Statement)
    (hbody : line.body? lexicon = some body) :
    ∃ mnemonic args, body = .unplaced .instruction (.named mnemonic) args := by
  cases line with
  | label address => cases hbody
  | origin _ | code _ _ | words _ | string _ _ _ | byte _ =>
    cases hbody
    exact ⟨_, _, rfl⟩

theorem written_of_statements (line : Line) (h : line.Readable lexicon) :
    ∀ statement ∈ line.statements lexicon, statement.Written := by
  intro statement hmem
  rcases List.mem_append.mp hmem with hmem | hmem
  · obtain ⟨name, -, rfl⟩ := List.mem_map.mp hmem
    exact .label _ rfl
  · have hbody := Option.mem_toList.mp hmem
    have hargs := line.isArgument_of_body h statement hbody
    obtain ⟨mnemonic, args, rfl⟩ := line.instruction_of_body statement hbody
    exact .instruction _ _ rfl hargs

/-- The tokens of a line parse to its statements. -/
theorem parse_tokens (line : Line) (h : line.Readable lexicon) (rest : List Token)
    (later : List Statement) (hrest : Statement.parse rest = .ok later) :
    Statement.parse (line.tokens lexicon ++ rest) = .ok (line.statements lexicon ++ later) := by
  have hbreak : Statement.parse
      ((if (line.body? lexicon).isNone then [Token.lineBreak] else []) ++ rest) = .ok later := by
    split
    · rw [List.singleton_append, Statement.parse.eq_def]
      exact hrest
    · exact hrest
  have hwritten := line.written_of_statements h
  rw [tokens, List.append_assoc]
  generalize line.statements lexicon = written at hwritten
  induction written with
  | nil => exact hbreak
  | cons statement written ih =>
    rw [List.flatMap_cons, List.append_assoc, List.cons_append]
    exact Statement.parse_tokens statement (hwritten statement List.mem_cons_self) _ _
      (ih fun other hother => hwritten other (List.mem_cons_of_mem _ hother))

end Line

/-- The text of readable lines scans and parses to their statements. -/
theorem parse_listing (lines : List Line) (h : ∀ line ∈ lines, line.Readable lexicon)
    (file : String) :
    ∃ tokens statements,
      Token.scan lexicon file (String.join (lines.map Line.render)).toList = .ok tokens ∧
      Statement.parse tokens = .ok statements ∧
      statements.map Statement.bare = lines.flatMap (Line.statements lexicon) := by
  have hscans : Token.Scans lexicon (lines.flatMap fun line => line.render.toList)
      (lines.flatMap (Line.tokens lexicon)) := by
    induction lines with
    | nil => exact Token.Scans.nil
    | cons line lines ih =>
      exact line.scans_render (h line List.mem_cons_self) _ _
        (ih fun other hother => h other (List.mem_cons_of_mem _ hother))
  have hparse : Statement.parse (lines.flatMap (Line.tokens lexicon)) =
      .ok (lines.flatMap (Line.statements lexicon)) := by
    clear hscans
    induction lines with
    | nil => rw [List.flatMap_nil, Statement.parse.eq_def]; rfl
    | cons line lines ih =>
      exact line.parse_tokens (h line List.mem_cons_self) _ _
        (ih fun other hother => h other (List.mem_cons_of_mem _ hother))
  -- the scanned tokens have positions, which the parser does not look at
  obtain ⟨tokens, hscan, htokens⟩ := hscans (.start file)
  rw [← htokens] at hparse
  obtain ⟨statements, hstatements, hbare⟩ := Statement.parse_of_bare tokens _ hparse
  refine ⟨tokens, statements, ?_, hstatements, hbare⟩
  rw [String.toList_join, List.flatMap_map]
  exact hscan

end Listing

end WordAsm
