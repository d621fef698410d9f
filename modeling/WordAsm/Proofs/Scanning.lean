import WordAsm.Proofs.LexicalGrammar
import WordAsm.Proofs.Numerals

/-! Scanning of written text. A text scans to tokens whatever the position it starts at, so tokens
are compared without their positions. A lexeme is a text that scans to one token in front of
anything that does not go on with a letter, a digit or an underscore; words, numerals and quoted
strings are lexemes. -/

namespace WordAsm

open WordAsm.Text

namespace Token

/-- The token without its position. -/
def bare (token : Token) : Token :=
  { token with pos := .nowhere }

/-- The source scans to tokens that differ from `tokens` in their positions at most. -/
def Scans (lexicon : Lexicon) (source : List Char) (tokens : List Token) : Prop :=
  ∀ pos, ∃ scanned, scanFrom lexicon pos source = .ok scanned ∧ scanned.map bare = tokens

/-- The text scans to the token in front of everything that ends a word. -/
def Lexeme (lexicon : Lexicon) (text : List Char) (token : Token) : Prop :=
  ∀ rest tokens, Stops rest → Scans lexicon rest tokens →
    Scans lexicon (text ++ rest) (token :: tokens)

/-- An ASCII letter or digit, or an underscore. -/
def isPlain (c : Char) : Bool :=
  c.toNat < 0x80 && isWordChar c

def comma : Token :=
  plain .punctuation "," .nowhere

def colon : Token :=
  plain .punctuation ":" .nowhere

def lineBreak : Token :=
  plain .lineBreak "\n" .nowhere

variable {lexicon : Lexicon}

theorem stops_cons (c : Char) (rest : List Char) (h : isWordChar c = false) :
    Stops (c :: rest) := by
  intro d hd
  cases hd
  exact h

theorem Scans.nil : Scans lexicon [] [] := by
  intro pos
  exact ⟨[], by rw [scanFrom], rfl⟩

theorem Scans.space {rest : List Char} {tokens : List Token} (h : Scans lexicon rest tokens) :
    Scans lexicon (' ' :: rest) tokens := by
  intro pos
  rw [scanFrom_blank (by decide) (by decide)]
  exact h _

theorem Scans.spaces {rest : List Char} {tokens : List Token} (h : Scans lexicon rest tokens)
    (count : Nat) : Scans lexicon (List.replicate count ' ' ++ rest) tokens := by
  induction count with
  | zero => exact h
  | succ count ih => exact ih.space

theorem Scans.lineBreak {rest : List Char} {tokens : List Token} (h : Scans lexicon rest tokens) :
    Scans lexicon ('\n' :: rest) (Token.lineBreak :: tokens) := by
  intro pos
  obtain ⟨scanned, hscan, htokens⟩ := h (pos.step '\n')
  refine ⟨plain .lineBreak "\n" pos :: scanned, ?_, by rw [List.map_cons, htokens]; rfl⟩
  rw [scanFrom_lineFeed, hscan]
  rfl

theorem Scans.punctuation {rest : List Char} {tokens : List Token} (h : Scans lexicon rest tokens)
    (c : Char) (hc : c = ',' ∨ c = ':') :
    Scans lexicon (c :: rest) (plain .punctuation c.toString .nowhere :: tokens) := by
  intro pos
  obtain ⟨scanned, hscan, htokens⟩ := h (pos.step c)
  refine ⟨plain .punctuation c.toString pos :: scanned, ?_, by rw [List.map_cons, htokens]; rfl⟩
  rw [scanFrom_punctuation hc, hscan]
  rfl

theorem Scans.comma {rest : List Char} {tokens : List Token} (h : Scans lexicon rest tokens) :
    Scans lexicon (',' :: rest) (Token.comma :: tokens) :=
  h.punctuation ',' (.inl rfl)

theorem Scans.colon {rest : List Char} {tokens : List Token} (h : Scans lexicon rest tokens) :
    Scans lexicon (':' :: rest) (Token.colon :: tokens) :=
  h.punctuation ':' (.inr rfl)

/-- Characters that spell a token are a lexeme of it. -/
theorem lexeme_of_spells (text : List Char) (token : Token)
    (h : ∀ pos, ∃ read, Spells lexicon pos read text ∧ read.bare = token) :
    Lexeme lexicon text token := by
  intro rest tokens hstops hrest pos
  obtain ⟨read, hspells, hbare⟩ := h pos
  obtain ⟨scanned, hscan, htokens⟩ := hrest (pos.after text)
  refine ⟨read :: scanned, ?_, by rw [List.map_cons, htokens, hbare]⟩
  rw [hspells.scanFrom_append fun _ => hstops, hscan]
  rfl

/-- Plain characters that are read as a token are a lexeme of it. -/
theorem lexeme_of_readWord (word : List Char) (token : Token) (hne : word ≠ [])
    (hplain : ∀ c ∈ word, isPlain c = true)
    (hread : ∀ pos, ∃ read, readWord lexicon pos word = .ok read ∧ read.bare = token) :
    Lexeme lexicon word token := by
  apply lexeme_of_spells
  intro pos
  obtain ⟨read, hword, hbare⟩ := hread pos
  have hchars : ∀ c ∈ word, isWordChar c = true :=
    fun c hc => (Bool.and_eq_true_iff.mp (hplain c hc)).2
  exact ⟨read, .word hne hchars hword, hbare⟩

/-- The token of a word that is not a numeral. -/
def word (lexicon : Lexicon) (text : String) : Token :=
  match lexicon text with
  | some cls => plain (.ofClass cls) (lower text) .nowhere
  | none => plain .identifier text .nowhere

/-- The token of a hexadecimal numeral. -/
def ofHex (width n : Nat) : Token :=
  ⟨hex width n, .number, 16, .nowhere, []⟩

theorem readWord_of_letter (pos : Position) (c : Char) (rest : List Char)
    (hc : c.isDigit = false) :
    ∃ read, readWord lexicon pos (c :: rest) = .ok read ∧
      read.bare = word lexicon (String.ofList (c :: rest)) := by
  -- only a zero can start the mark of a base
  have hzero : c ≠ '0' := by
    rintro rfl
    exact absurd hc (by decide)
  unfold readWord word
  split
  · rename_i heq
    exact absurd (List.cons.inj heq).1 hzero
  · rename_i heq
    exact absurd (List.cons.inj heq).1 hzero
  · rename_i heq
    obtain ⟨rfl, rfl⟩ := List.cons.inj heq
    rw [if_neg (by rw [hc]; exact Bool.false_ne_true)]
    cases hlexicon : lexicon (String.ofList (c :: rest)) with
    | none =>
      exact ⟨plain .identifier (String.ofList (c :: rest)) pos, by simp only [hlexicon], rfl⟩
    | some cls =>
      exact ⟨plain (.ofClass cls) (lower (String.ofList (c :: rest))) pos,
        by simp only [hlexicon], rfl⟩
  · rename_i heq
    cases heq

/-- The text is a word that starts with no digit. -/
def isName (text : String) : Bool :=
  text.toList.all isPlain && !text.toList.head?.all Char.isDigit

theorem lexeme_word (text : String) (h : isName text = true) :
    Lexeme lexicon text.toList (word lexicon text) := by
  rw [isName, Bool.and_eq_true, List.all_eq_true] at h
  obtain ⟨hplain, hfirst⟩ := h
  cases hlist : text.toList with
  | nil =>
    rw [hlist] at hfirst
    cases hfirst
  | cons c rest =>
    rw [hlist] at hplain hfirst
    have hc : c.isDigit = false := by simpa using hfirst
    have htext : String.ofList (c :: rest) = text := by rw [← hlist, String.ofList_toList]
    refine lexeme_of_readWord (c :: rest) _ (List.cons_ne_nil c rest) hplain fun pos => ?_
    rw [← htext]
    exact readWord_of_letter pos c rest hc

/-- Digits of a number are read as that number. -/
theorem readNumber_of_digits (pos : Position) (radix : Radix) (text : List Char) (n : Nat)
    (hne : text ≠ []) (hdigits : ∀ c ∈ text, radix.isDigit c = true)
    (hread : readDigits radix.base 0 text = .ok n) :
    readNumber pos radix text = .ok ⟨String.ofList text, .number, radix.base, pos, []⟩ := by
  have hempty : text.isEmpty = false := by simpa using hne
  have hdrop : text.dropWhile radix.isDigit = [] := List.dropWhile_eq_nil_iff.mpr hdigits
  rw [readNumber, hempty, if_neg Bool.false_ne_true]
  simp only [hdrop, hread]

theorem hex_ne_nil (width n : Nat) : (hex width n).toList ≠ [] := by
  rw [hex, String.toList_ofList, List.leftpad]
  exact List.append_ne_nil_of_right_ne_nil _ (digits_ne_nil 16 n)

theorem readDigits_hex (width n : Nat) (hn : n < Word.modulus) :
    readDigits 16 0 (hex width n).toList = .ok n := by
  rw [hex, String.toList_ofList, List.leftpad, readDigits_zeros 16 _ _ (by decide)]
  exact readDigits_digits 16 n (by decide) (by decide) hn

theorem value_ofHex (width n : Nat) (hn : n < Word.modulus) :
    (ofHex width n).value = .ok (UInt64.ofNat n) := by
  have hne : (hex width n).toList.isEmpty = false := by simpa using hex_ne_nil width n
  have hnumeral : readNumeral 16 (hex width n).toList = .ok (UInt64.ofNat n) := by
    rw [readNumeral, hne, if_neg Bool.false_ne_true, if_pos (by decide)]
    change (readDigits 16 0 (hex width n).toList).map UInt64.ofNat = _
    rw [readDigits_hex width n hn]
    rfl
  simp only [value, ofHex, if_true, hnumeral]

/-- A hexadecimal numeral with its mark is a lexeme. -/
theorem lexeme_hex (width n : Nat) (hn : n < Word.modulus) :
    Lexeme lexicon ("0x" ++ hex width n).toList (ofHex width n) := by
  have hplain : ∀ c ∈ (hex width n).toList,
      isPlain c = true ∧ Radix.hexadecimal.isDigit c = true := by
    intro c hc
    rw [hex, String.toList_ofList, List.leftpad, List.mem_append] at hc
    rcases hc with hc | hc
    · rw [(List.mem_replicate.mp hc).2]
      decide
    · exact forall_mem_digits (fun c => isPlain c = true ∧ Radix.hexadecimal.isDigit c = true) 16 n
        (by decide) (by decide) c hc
  rw [String.toList_append]
  refine lexeme_of_readWord _ _ (List.cons_ne_nil _ _) ?_ fun pos => ?_
  · intro c hc
    rcases List.mem_append.mp hc with hc | hc
    · have hall : "0x".toList.all isPlain = true := by decide
      exact List.all_eq_true.mp hall c hc
    · exact (hplain c hc).1
  · refine ⟨⟨hex width n, .number, 16, pos, []⟩, ?_, rfl⟩
    have hnumber := readNumber_of_digits pos .hexadecimal _ n (hex_ne_nil width n)
      (fun c hc => (hplain c hc).2) (readDigits_hex width n hn)
    rw [String.ofList_toList] at hnumber
    exact hnumber

theorem readWord_of_digits (pos : Position) (word : List Char) (hne : word ≠ [])
    (hdigits : ∀ c ∈ word, c.isDigit = true) :
    readWord lexicon pos word = readNumber pos .decimal word := by
  have hmark (c : Char) (hc : c.isDigit = false) (rest : List Char) : word ≠ '0' :: c :: rest := by
    rintro rfl
    rw [hdigits c (by simp)] at hc
    cases hc
  unfold readWord
  split
  · exact absurd rfl (hmark 'x' (by decide) _)
  · exact absurd rfl (hmark 'b' (by decide) _)
  · rw [if_pos (hdigits _ List.mem_cons_self)]
  · exact absurd rfl hne

/-- A decimal numeral is a lexeme. -/
theorem lexeme_decimal (value : UInt64) :
    Lexeme lexicon (decimal value.toNat).toList (ofValue value .nowhere) := by
  have hall : ∀ c ∈ digits 10 value.toNat, isPlain c = true ∧ c.isDigit = true ∧
      Radix.decimal.isDigit c = true :=
    forall_mem_digits
      (fun c => isPlain c = true ∧ c.isDigit = true ∧ Radix.decimal.isDigit c = true) 10 _
      (by decide) (by decide)
  have hne := digits_ne_nil 10 value.toNat
  have hread := readDigits_digits 10 value.toNat (by decide) (by decide) value.toNat_lt
  rw [decimal, String.toList_ofList]
  refine lexeme_of_readWord _ _ hne (fun c hc => (hall c hc).1) fun pos => ?_
  refine ⟨ofValue value pos, ?_, rfl⟩
  rw [readWord_of_digits pos _ hne fun c hc => (hall c hc).2.1]
  exact readNumber_of_digits pos .decimal _ value.toNat hne (fun c hc => (hall c hc).2.2) hread

/-- What stands for a character between double quotes. -/
def escape (c : Char) : List Char :=
  if c = '"' ∨ c = '\\' then ['\\', c] else [c]

theorem literal_escape (chars : List Char) : Literal '"' (chars.flatMap escape) chars := by
  induction chars with
  | nil => exact .nil
  | cons c chars ih =>
    rw [List.flatMap_cons, escape]
    by_cases hc : c = '"' ∨ c = '\\'
    · have hunescape : unescape? c = some c := by
        rcases hc with rfl | rfl <;> decide
      rw [if_pos hc]
      exact .escaped hunescape ih
    · rw [if_neg hc]
      exact .plain (not_or.mp hc).1 (not_or.mp hc).2 ih

/-- A quoted text is a lexeme, whatever its characters. -/
theorem lexeme_string (chars : List Char) :
    Lexeme lexicon ('"' :: chars.flatMap escape ++ ['"'])
      (plain .string (String.ofList chars) .nowhere) := by
  apply lexeme_of_spells
  intro pos
  exact ⟨_, .string (.inl rfl) (literal_escape chars), rfl⟩

/-- Lexemes with commas between them scan to their tokens with commas between them. -/
theorem scans_intercalate (texts : List (List Char)) (tokens : List Token)
    (h : List.Forall₂ (Lexeme lexicon) texts tokens) (rest : List Char) (later : List Token)
    (hstops : Stops rest) (hrest : Scans lexicon rest later) :
    Scans lexicon ([',', ' '].intercalate texts ++ rest)
      (tokens.intersperse Token.comma ++ later) := by
  induction h with
  | nil => exact hrest
  | @cons text token texts tokens hfirst htail ih =>
    cases htail with
    | nil =>
      rw [List.intercalate_singleton]
      exact hfirst rest later hstops hrest
    | @cons next token' texts tokens hnext htail =>
      rw [List.intersperse_cons_cons, List.intercalate_cons_cons, List.append_assoc,
        List.append_assoc]
      exact hfirst _ _ (stops_cons ',' _ (by decide)) (Scans.comma (Scans.space ih))

end Token

end WordAsm
