import WordAsm.Proofs.Checks
import WordAsm.Proofs.SourcePositions

/-! The lexical grammar. The first character decides what the scanner does next, and a source is a
sequence of blanks, comments and tokens. Every token is read from characters of its own: a word from
all letters, digits and underscores that follow one another, a string from what stands between two
quotes. -/

namespace WordAsm

open WordAsm.Text

namespace Token

/-- A blank is no letter, digit or underscore. -/
theorem isWordChar_of_isBlank (c : Char) (h : isBlank c = true) : isWordChar c = false := by
  -- there are few blanks, so each of them can be looked at
  have hall : ∀ n ∈ blankRanges.flatMap fun run => List.range' run.1 (run.2 + 1 - run.1),
      isWordChar (Char.ofNat n) = false := by
    decide +kernel
  obtain ⟨run, hrun, hc⟩ := List.any_eq_true.mp h
  rw [Bool.and_eq_true, decide_eq_true_eq, decide_eq_true_eq] at hc
  have hcode : c.toNat ∈ List.range' run.1 (run.2 + 1 - run.1) := by
    rw [List.mem_range'_1]
    omega
  have hword := hall c.toNat (List.mem_flatMap.mpr ⟨run, hrun, hcode⟩)
  rwa [Char.ofNat_toNat] at hword

theorem isWordChar_of_punctuation {c : Char} (h : c = ',' ∨ c = ':') : isWordChar c = false := by
  rcases h with rfl | rfl <;> decide

theorem isWordChar_of_quote {c : Char} (h : c = '"' ∨ c = '\x27') : isWordChar c = false := by
  rcases h with rfl | rfl <;> decide

/-- Letters, digits and underscores start words and nothing else. -/
theorem ne_of_isWordChar (c : Char) (h : isWordChar c = true) :
    c ≠ ';' ∧ c ≠ '\n' ∧ ¬ isBlank c = true ∧ ¬(c = ',' ∨ c = ':') ∧ ¬(c = '"' ∨ c = '\x27') := by
  have hnot {d : Char} (hd : isWordChar d = false) : c ≠ d := by
    rintro rfl
    exact Bool.false_ne_true (hd.symm.trans h)
  refine ⟨hnot (by decide), hnot (by decide), ?_, ?_, ?_⟩
  · intro hblank
    exact hnot (isWordChar_of_isBlank c hblank) rfl
  · intro hpunctuation
    exact hnot (isWordChar_of_punctuation hpunctuation) rfl
  · intro hquote
    exact hnot (isWordChar_of_quote hquote) rfl

variable {lexicon : Lexicon} {pos : Position} {rest : List Char}

theorem scanFrom_comment : scanFrom lexicon pos (';' :: rest) =
    scanFrom lexicon (pos.after (';' :: rest.takeWhile (· ≠ '\n')))
      (rest.dropWhile (· ≠ '\n')) := by
  rw [scanFrom, if_pos rfl]

theorem scanFrom_lineFeed : scanFrom lexicon pos ('\n' :: rest) = (do
    let tokens ← scanFrom lexicon (pos.step '\n') rest
    return plain .lineBreak "\n" pos :: tokens) := by
  rw [scanFrom, if_neg (by decide), if_pos rfl]

theorem scanFrom_blank {c : Char} (hblank : isBlank c = true) (hline : c ≠ '\n') :
    scanFrom lexicon pos (c :: rest) = scanFrom lexicon (pos.step c) rest := by
  have hcomment : c ≠ ';' := by
    rintro rfl
    exact absurd hblank (by decide)
  rw [scanFrom, if_neg hcomment, if_neg hline, if_pos hblank]

theorem scanFrom_punctuation {c : Char} (hc : c = ',' ∨ c = ':') :
    scanFrom lexicon pos (c :: rest) = (do
      let tokens ← scanFrom lexicon (pos.step c) rest
      return plain .punctuation c.toString pos :: tokens) := by
  have hother : c ≠ ';' ∧ c ≠ '\n' ∧ ¬ isBlank c = true := by
    rcases hc with rfl | rfl <;> decide
  rw [scanFrom, if_neg hother.1, if_neg hother.2.1, if_neg hother.2.2, if_pos hc]

theorem scanFrom_string {c : Char} (hc : c = '"' ∨ c = '\x27') :
    scanFrom lexicon pos (c :: rest) = (do
      let result ← readString pos c (pos.step c) [] rest
      let tokens ← scanFrom lexicon result.pos result.rest
      return plain .string (String.ofList result.text) pos :: tokens) := by
  have hother : c ≠ ';' ∧ c ≠ '\n' ∧ ¬ isBlank c = true ∧ ¬(c = ',' ∨ c = ':') := by
    rcases hc with rfl | rfl <;> decide
  rw [scanFrom, if_neg hother.1, if_neg hother.2.1, if_neg hother.2.2.1, if_neg hother.2.2.2,
    if_pos hc]
  split
  · rename_i e hread
    rw [hread]
    rfl
  · rename_i result hread
    rw [hread]
    rfl

theorem scanFrom_word {c : Char} (hc : isWordChar c = true) :
    scanFrom lexicon pos (c :: rest) = (do
      let token ← readWord lexicon pos (c :: rest.takeWhile isWordChar)
      let tokens ← scanFrom lexicon (pos.after (c :: rest.takeWhile isWordChar))
        (rest.dropWhile isWordChar)
      return token :: tokens) := by
  obtain ⟨hcomment, hline, hblank, hpunctuation, hquote⟩ := ne_of_isWordChar c hc
  rw [scanFrom, if_neg hcomment, if_neg hline, if_neg hblank, if_neg hpunctuation, if_neg hquote,
    if_pos hc]

/-- A word that stands before the source ends there. -/
def Stops (source : List Char) : Prop :=
  ∀ c ∈ source.head?, isWordChar c = false

/-- No word goes on behind characters that are not all part of one. -/
theorem stops_of_mem {chars : List Char} {c : Char} (hmem : c ∈ chars)
    (hc : isWordChar c = false) (hword : ∀ d ∈ chars, isWordChar d = true) : Stops rest := by
  rw [hword c hmem] at hc
  cases hc

/-- The characters between the quotes of a string, and the text that they stand for. -/
inductive Literal (quote : Char) : List Char → List Char → Prop where
  | nil : Literal quote [] []
  | plain {c : Char} {chars text : List Char} (hquote : c ≠ quote) (hslash : c ≠ '\\')
    (hrest : Literal quote chars text) : Literal quote (c :: chars) (c :: text)
  | escaped {e d : Char} {chars text : List Char} (hescape : unescape? e = some d)
    (hrest : Literal quote chars text) : Literal quote ('\\' :: e :: chars) (d :: text)

/-- The characters that a token at `pos` is read from. -/
inductive Spells (lexicon : Lexicon) (pos : Position) : Token → List Char → Prop where
  | lineBreak : Spells lexicon pos (plain .lineBreak "\n" pos) ['\n']
  | punctuation {c : Char} (hc : c = ',' ∨ c = ':') :
    Spells lexicon pos (plain .punctuation c.toString pos) [c]
  | string {quote : Char} {chars text : List Char} (hquote : quote = '"' ∨ quote = '\x27')
    (hchars : Literal quote chars text) :
    Spells lexicon pos (plain .string (String.ofList text) pos) (quote :: chars ++ [quote])
  | word {token : Token} {chars : List Char} (hne : chars ≠ [])
    (hchars : ∀ c ∈ chars, isWordChar c = true) (hread : readWord lexicon pos chars = .ok token) :
    Spells lexicon pos token chars

/-- The source from `pos` on consists of the tokens, of blanks and of comments. A comment goes on to
the end of its line, and no letter, digit or underscore follows a word. -/
inductive Lexes (lexicon : Lexicon) : Position → List Char → List Token → Prop where
  | done (pos : Position) : Lexes lexicon pos [] []
  | blank {pos : Position} {c : Char} {rest : List Char} {tokens : List Token}
    (hblank : isBlank c = true) (hline : c ≠ '\n')
    (hrest : Lexes lexicon (pos.step c) rest tokens) : Lexes lexicon pos (c :: rest) tokens
  | comment {pos : Position} {text rest : List Char} {tokens : List Token}
    (htext : ∀ c ∈ text, c ≠ '\n') (hend : ∀ c ∈ rest.head?, c = '\n')
    (hrest : Lexes lexicon (pos.after (';' :: text)) rest tokens) :
    Lexes lexicon pos (';' :: text ++ rest) tokens
  | token {pos : Position} {token : Token} {chars rest : List Char} {tokens : List Token}
    (hspells : Spells lexicon pos token chars)
    (hend : (∀ c ∈ chars, isWordChar c = true) → Stops rest)
    (hrest : Lexes lexicon (pos.after chars) rest tokens) :
    Lexes lexicon pos (chars ++ rest) (token :: tokens)

/-- What has been read of a string when its end is found. -/
theorem literal_of_readString {start : Position} {quote : Char} {text source : List Char}
    {result : StringEnd} (h : readString start quote pos text source = .ok result) :
    ∃ chars read, source = chars ++ quote :: result.rest ∧ Literal quote chars read ∧
      result.text = text.reverse ++ read ∧ result.pos = (pos.after chars).step quote := by
  fun_induction readString start quote pos text source with
  | case1 => cases h
  | case2 pos text rest =>
    cases h
    exact ⟨[], [], rfl, .nil, (List.append_nil _).symm, rfl⟩
  | case3 => cases h
  | case4 pos text e rest d hescape hquote ih =>
    obtain ⟨chars, read, rfl, hchars, hread, hpos⟩ := ih h
    refine ⟨'\\' :: e :: chars, d :: read, rfl, .escaped hescape hchars, ?_, hpos⟩
    rw [hread, List.reverse_cons, List.append_assoc]
    rfl
  | case5 => cases h
  | case6 pos text c rest hquote hslash ih =>
    obtain ⟨chars, read, rfl, hchars, hread, hpos⟩ := ih h
    refine ⟨c :: chars, c :: read, rfl, .plain hquote hslash hchars, ?_, hpos⟩
    rw [hread, List.reverse_cons, List.append_assoc]
    rfl

/-- A string is read up to its closing quote, whatever stands behind it. -/
theorem readString_of_literal {start : Position} {quote : Char} {chars read : List Char}
    (h : Literal quote chars read) (hquote : quote ≠ '\\') (text : List Char) :
    readString start quote pos text (chars ++ quote :: rest) =
      .ok ⟨text.reverse ++ read, (pos.after chars).step quote, rest⟩ := by
  -- the characters read so far are kept in reverse
  induction h generalizing pos text with
  | nil =>
    rw [List.nil_append, readString.eq_def, List.append_nil]
    exact if_pos rfl
  | @plain c chars read hne hslash _ ih =>
    rw [List.cons_append, readString.eq_def]
    dsimp only
    rw [if_neg hne, if_neg hslash, ih, List.reverse_cons, List.append_assoc]
    rfl
  | @escaped e d chars read hescape _ ih =>
    rw [List.cons_append, List.cons_append, readString.eq_def]
    dsimp only
    rw [if_neg hquote.symm, if_pos rfl, hescape]
    dsimp only
    rw [ih, List.reverse_cons, List.append_assoc]
    rfl

theorem takeWhile_append_of_head? (p : Char → Bool) (front rest : List Char)
    (hfront : ∀ c ∈ front, p c = true) (hrest : ∀ c ∈ rest.head?, p c = false) :
    (front ++ rest).takeWhile p = front ∧ (front ++ rest).dropWhile p = rest := by
  have hnone : rest.takeWhile p = [] ∧ rest.dropWhile p = rest := by
    cases rest with
    | nil => exact ⟨rfl, rfl⟩
    | cons c rest =>
      rw [List.takeWhile_cons, List.dropWhile_cons, hrest c rfl]
      exact ⟨rfl, rfl⟩
  rw [List.takeWhile_append_of_pos hfront, List.dropWhile_append_of_pos hfront, hnone.1, hnone.2,
    List.append_nil]
  exact ⟨rfl, rfl⟩

/-- Characters that spell a token are scanned as that token, unless a word goes on behind them. -/
theorem Spells.scanFrom_append {token : Token} {chars : List Char}
    (h : Spells lexicon pos token chars)
    (hend : (∀ c ∈ chars, isWordChar c = true) → Stops rest) :
    scanFrom lexicon pos (chars ++ rest) = (do
      let tokens ← scanFrom lexicon (pos.after chars) rest
      return token :: tokens) := by
  cases h with
  | lineBreak => exact scanFrom_lineFeed
  | punctuation hc => exact scanFrom_punctuation hc
  | @string quote chars text hquote hchars =>
    have hslash : quote ≠ '\\' := by
      rcases hquote with rfl | rfl <;> decide
    rw [List.append_assoc, List.cons_append, scanFrom_string hquote, List.singleton_append,
      readString_of_literal hchars hslash, Position.after_append]
    rfl
  | word hne hchars hread =>
    obtain ⟨c, chars, rfl⟩ := List.exists_cons_of_ne_nil hne
    obtain ⟨htake, hdrop⟩ := takeWhile_append_of_head? isWordChar chars rest
      (fun d hd => hchars d (List.mem_cons_of_mem c hd)) (hend hchars)
    rw [List.cons_append, scanFrom_word (hchars c List.mem_cons_self), htake, hdrop, hread]
    rfl

theorem head?_dropWhile (p : Char → Bool) (chars : List Char) :
    ∀ c ∈ (chars.dropWhile p).head?, p c = false := by
  intro c hc
  have hnot := List.head?_dropWhile_not p chars
  rw [Option.mem_def.mp hc] at hnot
  exact hnot

/-- What the scanner accepts follows the lexical grammar. -/
theorem lexes_of_scanFrom {source : List Char} {tokens : List Token}
    (h : scanFrom lexicon pos source = .ok tokens) : Lexes lexicon pos source tokens := by
  fun_induction scanFrom lexicon pos source generalizing tokens with
  | case1 pos =>
    cases h
    exact .done pos
  | case2 pos rest ih =>
    -- a comment takes all characters up to the line feed that ends it
    have hend := head?_dropWhile (· ≠ '\n') rest
    have hcomment : Lexes lexicon pos
        (';' :: rest.takeWhile (· ≠ '\n') ++ rest.dropWhile (· ≠ '\n')) tokens := by
      apply Lexes.comment _ _ (ih h)
      · intro c hc
        simpa using List.mem_takeWhile_imp hc
      · intro c hc
        simpa using hend c hc
    rwa [List.cons_append, List.takeWhile_append_dropWhile] at hcomment
  | case3 pos rest _ ih =>
    obtain ⟨later, hlater, hok⟩ := bind_eq_ok_iff.mp h
    cases hok
    exact Lexes.token .lineBreak (stops_of_mem List.mem_cons_self (by decide)) (ih hlater)
  | case4 pos c rest _ hline hblank ih => exact .blank hblank hline (ih h)
  | case5 pos c rest _ _ _ hc ih =>
    obtain ⟨later, hlater, hok⟩ := bind_eq_ok_iff.mp h
    cases hok
    exact Lexes.token (.punctuation hc)
      (stops_of_mem List.mem_cons_self (isWordChar_of_punctuation hc)) (ih hlater)
  | case6 => cases h
  | case7 pos c rest _ _ _ _ hquote result hresult ih =>
    obtain ⟨later, hlater, hok⟩ := bind_eq_ok_iff.mp h
    cases hok
    obtain ⟨chars, text, rfl, hchars, htext, hpos⟩ := literal_of_readString hresult
    have hsplit : c :: (chars ++ c :: result.rest) = (c :: chars ++ [c]) ++ result.rest := by
      rw [List.append_assoc]
      rfl
    rw [hsplit, htext]
    apply Lexes.token (.string hquote hchars)
    · exact stops_of_mem List.mem_cons_self (isWordChar_of_quote hquote)
    · rw [Position.after_append]
      have hpos' : result.pos = (pos.after (c :: chars)).after [c] := hpos
      rw [← hpos']
      exact ih hlater
  | case8 pos c rest _ _ _ _ _ hc word =>
    rename_i ih
    obtain ⟨token, htoken, h⟩ := bind_eq_ok_iff.mp h
    obtain ⟨later, hlater, hok⟩ := bind_eq_ok_iff.mp h
    cases hok
    have hword : ∀ d ∈ c :: rest.takeWhile isWordChar, isWordChar d = true :=
      List.forall_mem_cons.mpr ⟨hc, fun d => List.mem_takeWhile_imp⟩
    have hlexes := Lexes.token (.word (List.cons_ne_nil _ _) hword htoken)
      (fun _ => head?_dropWhile isWordChar rest) (ih hlater)
    rwa [List.cons_append, List.takeWhile_append_dropWhile] at hlexes
  | case9 => cases h

end Token

end WordAsm
