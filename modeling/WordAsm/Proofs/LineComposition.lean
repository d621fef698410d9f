import WordAsm.Proofs.LexicalGrammar
import WordAsm.Proofs.Parsing

/-! Sources line by line. Neither the scanner nor the grammar takes anything over the end of a line,
so what stands behind a line feed is scanned and parsed as if it stood alone, further down. -/

namespace WordAsm

open WordAsm.Text

/-- The position as many rows further down. -/
def Position.down (rows : Nat) (pos : Position) : Position :=
  { pos with row := pos.row + rows }

def Token.down (rows : Nat) (token : Token) : Token :=
  { token with pos := token.pos.down rows }

def Error.down (rows : Nat) (e : Error) : Error :=
  { e with pos := e.pos.down rows }

/-- What a run ends in, with the positions of its result and of its fault moved down. -/
def outcomeDown {α : Type} (rows : Nat) (down : α → α) (outcome : Except Error α) :
    Except Error α :=
  (outcome.map down).mapError (Error.down rows)

section

variable {α β : Type} {rows : Nat} {down : α → α} {down' : β → β}

theorem bind_outcomeDown {next next' : α → Except Error β} (run : Except Error α)
    (h : ∀ a, next' (down a) = outcomeDown rows down' (next a)) :
    outcomeDown rows down run >>= next' = outcomeDown rows down' (run >>= next) := by
  cases run with
  | error e => rfl
  | ok a => exact h a

end

namespace Position

theorem step_down (rows : Nat) (pos : Position) (c : Char) :
    (pos.down rows).step c = (pos.step c).down rows := by
  rw [step, step]
  split
  · simp only [down, Position.mk.injEq, true_and, and_true]
    omega
  · rfl

theorem after_down (rows : Nat) (pos : Position) (text : List Char) :
    (pos.down rows).after text = (pos.after text).down rows := by
  induction text generalizing pos with
  | nil => rfl
  | cons c text ih =>
    change ((pos.down rows).step c).after text = ((pos.step c).after text).down rows
    rw [step_down, ih]

/-- Behind a source and a line feed the next row starts. -/
theorem start_after_lineFeed (file : String) (source : List Char) :
    ((start file).after source).step '\n' = (start file).down (1 + source.count '\n') := by
  rw [start_after, step, if_pos rfl]
  simp only [down, start, Position.mk.injEq, true_and, and_true]
  omega

end Position

namespace Token

variable (rows : Nat)

theorem readNumber_down (pos : Position) (radix : Radix) (digits : List Char) :
    readNumber (pos.down rows) radix digits =
      outcomeDown rows (down rows) (readNumber pos radix digits) := by
  rw [readNumber, readNumber]
  split
  · rfl
  · dsimp only
    split
    · rfl
    · split
      · rfl
      · rfl

theorem readWord_down (lexicon : Lexicon) (pos : Position) (word : List Char) :
    readWord lexicon (pos.down rows) word =
      outcomeDown rows (down rows) (readWord lexicon pos word) := by
  rw [readWord.eq_def, readWord.eq_def]
  split
  · exact readNumber_down rows pos .hexadecimal _
  · exact readNumber_down rows pos .binary _
  · split
    · exact readNumber_down rows pos .decimal _
    · dsimp only
      split
      · rfl
      · rfl
  · rfl

def StringEnd.down (result : StringEnd) : StringEnd :=
  { result with pos := result.pos.down rows }

theorem readString_down (start : Position) (quote : Char) (pos : Position)
    (text source : List Char) :
    readString (start.down rows) quote (pos.down rows) text source =
      outcomeDown rows (StringEnd.down rows) (readString start quote pos text source) := by
  fun_induction readString start quote pos text source with
  | case1 => rfl
  | case2 pos text rest =>
    rw [readString.eq_def]
    dsimp only
    rw [if_pos rfl, Position.step_down]
    rfl
  | case3 pos text hquote =>
    rw [readString.eq_def]
    dsimp only
    rw [if_neg hquote, if_pos rfl]
    rfl
  | case4 pos text e rest d hescape hquote ih =>
    rw [readString.eq_def]
    dsimp only
    rw [if_neg hquote, if_pos rfl, hescape, Position.step_down, Position.step_down]
    exact ih
  | case5 pos text e rest hescape hquote =>
    rw [readString.eq_def]
    dsimp only
    rw [if_neg hquote, if_pos rfl, hescape]
    rfl
  | case6 pos text c rest hquote hslash ih =>
    rw [readString.eq_def]
    dsimp only
    rw [if_neg hquote, if_neg hslash, Position.step_down]
    exact ih

/-- The tokens of a source that stands further down, and its fault, are those of the source. -/
theorem scanFrom_down (lexicon : Lexicon) (pos : Position) (source : List Char) :
    scanFrom lexicon (pos.down rows) source =
      outcomeDown rows (List.map (down rows)) (scanFrom lexicon pos source) := by
  -- no branch of the scanner looks at the position, so both runs take the same ones
  fun_induction scanFrom lexicon pos source with
  | case1 pos =>
    rw [scanFrom]
    rfl
  | case2 pos rest ih =>
    rw [scanFrom_comment, Position.after_down]
    exact ih
  | case3 pos rest _ ih =>
    rw [scanFrom_lineFeed, Position.step_down, ih]
    apply bind_outcomeDown
    intro tokens
    rfl
  | case4 pos c rest _ hline hblank ih =>
    rw [scanFrom_blank hblank hline, Position.step_down]
    exact ih
  | case5 pos c rest _ _ _ hc ih =>
    rw [scanFrom_punctuation hc, Position.step_down, ih]
    apply bind_outcomeDown
    intro tokens
    rfl
  | case6 pos c rest _ _ _ _ hquote e hread =>
    rw [scanFrom_string hquote, Position.step_down, readString_down, hread]
    rfl
  | case7 pos c rest _ _ _ _ hquote result hread ih =>
    rw [scanFrom_string hquote, Position.step_down, readString_down, hread]
    change (scanFrom lexicon (result.pos.down rows) result.rest >>= _) = _
    rw [ih]
    apply bind_outcomeDown
    intro tokens
    rfl
  | case8 pos c rest _ _ _ _ _ hc word =>
    rename_i ih
    rw [scanFrom_word hc, readWord_down, Position.after_down, ih]
    apply bind_outcomeDown
    intro token
    apply bind_outcomeDown
    intro tokens
    rfl
  | case9 pos c rest hcomment hline hblank hpunctuation hquote hword =>
    rw [scanFrom, if_neg hcomment, if_neg hline, if_neg hblank, if_neg hpunctuation, if_neg hquote,
      if_neg hword]
    rfl

theorem Stops.append_lineFeed {rest : List Char} (h : Stops rest) (later : List Char) :
    Stops (rest ++ '\n' :: later) := by
  intro c hc
  cases rest with
  | nil =>
    cases hc
    decide
  | cons d rest => exact h c hc

/-- A line feed behind a source that follows the lexical grammar ends what is scanned before it. -/
theorem Lexes.scanFrom_append {lexicon : Lexicon} {pos : Position} {source : List Char}
    {tokens : List Token} (h : Lexes lexicon pos source tokens) (later : List Char) :
    scanFrom lexicon pos (source ++ '\n' :: later) = (do
      let rest ← scanFrom lexicon (pos.after source) ('\n' :: later)
      return tokens ++ rest) := by
  induction h with
  | done pos => exact (bind_pure _).symm
  | blank hblank hline _ ih =>
    rw [List.cons_append, scanFrom_blank hblank hline, ih]
    rfl
  | @comment pos text rest tokens htext hend _ ih =>
    -- a comment that the end of the source would end is ended by the line feed
    have hstop : ∀ c ∈ (rest ++ '\n' :: later).head?, decide (c ≠ '\n') = false := by
      intro c hc
      cases rest with
      | nil =>
        cases hc
        rfl
      | cons d rest => simpa using hend c hc
    obtain ⟨htake, hdrop⟩ := takeWhile_append_of_head? (· ≠ '\n') text (rest ++ '\n' :: later)
      (fun c hc => by simpa using htext c hc) hstop
    rw [List.append_assoc, List.cons_append, scanFrom_comment, htake, hdrop, ih,
      Position.after_append]
  | @token pos token chars rest tokens hspells hend _ ih =>
    rw [List.append_assoc, hspells.scanFrom_append fun hword => (hend hword).append_lineFeed later,
      ih, Position.after_append, bind_assoc]
    rfl

/-- A source, a line feed and another source. -/
theorem scan_lineFeed (lexicon : Lexicon) (file : String) (source later : List Char)
    (tokens : List Token) (h : scan lexicon file source = .ok tokens) :
    scan lexicon file (source ++ '\n' :: later) = (do
      let more ← outcomeDown (1 + source.count '\n') (List.map (down (1 + source.count '\n')))
        (scan lexicon file later)
      return tokens ++ plain .lineBreak "\n" ((Position.start file).after source) :: more) := by
  have hsource := (lexes_of_scanFrom h).scanFrom_append later
  rw [scan, hsource, scanFrom_lineFeed, Position.start_after_lineFeed, scanFrom_down, bind_assoc]
  rfl

end Token

/-- Sources compose line by line. Behind a source that is scanned and a line feed, another source is
scanned as it is alone, only that its tokens and its fault stand further down. Statements are parsed
up to a line break as if nothing followed it, and behind it as if nothing preceded it. -/
theorem lines_compose :
    (∀ (lexicon : Lexicon) (file : String) (source later : List Char) (tokens : List Token),
      Token.scan lexicon file source = .ok tokens →
        (∀ more, Token.scan lexicon file later = .ok more →
          Token.scan lexicon file (source ++ '\n' :: later) =
            .ok (tokens ++ Token.plain .lineBreak "\n" ⟨file, 1 + source.count '\n',
              1 + (source.rtakeWhile (· ≠ '\n')).length⟩ ::
                more.map (Token.down (1 + source.count '\n')))) ∧
        (∀ e, Token.scan lexicon file later = .error e →
          Token.scan lexicon file (source ++ '\n' :: later) =
            .error (e.down (1 + source.count '\n')))) ∧
    (∀ (tokens later : List Token) (lineBreak : Token), lineBreak.kind = .lineBreak →
      (∀ e, Statement.parse tokens = .error e →
        Statement.parse (tokens ++ lineBreak :: later) = .error e) ∧
      (∀ statements, Statement.parse tokens = .ok statements →
        (∀ e, Statement.parse later = .error e →
          Statement.parse (tokens ++ lineBreak :: later) = .error e) ∧
        (∀ more, Statement.parse later = .ok more →
          Statement.parse (tokens ++ lineBreak :: later) = .ok (statements ++ more)))) := by
  refine ⟨?_, ?_⟩
  · intro lexicon file source later tokens h
    have hscan := Token.scan_lineFeed lexicon file source later tokens h
    rw [Position.start_after] at hscan
    refine ⟨?_, ?_⟩
    · intro more hmore
      rw [hscan, hmore]
      rfl
    · intro e he
      rw [hscan, he]
      rfl
  · intro tokens later lineBreak hkind
    have hbreak : lineBreak.isBreak = true := by
      rw [Token.isBreak, hkind]
      rfl
    have hparse := Statement.parse_append tokens lineBreak hbreak later
    refine ⟨?_, ?_⟩
    · intro e he
      rw [hparse, he]
      rfl
    · intro statements hstatements
      rw [hparse, hstatements]
      refine ⟨?_, ?_⟩
      · intro e he
        rw [he]
        rfl
      · intro more hmore
        rw [hmore]
        rfl

/-- A label and a comment that holds a quote. -/
def labelLine : List Char :=
  ['a', ':', ';', '"']

def labelTokens : List Token :=
  [Token.plain .identifier "a" ⟨"f.asm", 1, 1⟩, Token.plain .punctuation ":" ⟨"f.asm", 1, 2⟩]

/-- A string over two lines. -/
def stringLines : List Char :=
  ['"', '\n', '"', ',']

/-- The quote in the comment opens no string, and the comma of the second line is the one that is at
fault. -/
theorem labelLine_composed :
    Token.scan Lexicon.none "f.asm" labelLine = .ok labelTokens ∧
      Token.scan Lexicon.none "f.asm" (labelLine ++ '\n' :: stringLines) =
        .ok (labelTokens ++ [Token.plain .lineBreak "\n" ⟨"f.asm", 1, 5⟩,
          Token.plain .string "\n" ⟨"f.asm", 2, 1⟩, Token.plain .punctuation "," ⟨"f.asm", 3, 2⟩]) ∧
      Token.scan Lexicon.none "f.asm" (labelLine ++ '\n' :: ['0', 'x']) =
        .error ⟨⟨"f.asm", 2, 1⟩, .missingDigits "0x"⟩ ∧
      Statement.parse (labelTokens ++ Token.plain .lineBreak "\n" ⟨"f.asm", 1, 5⟩ ::
          [Token.plain .punctuation "," ⟨"f.asm", 2, 1⟩]) =
        .error ⟨⟨"f.asm", 2, 1⟩, .expectedStatement .punctuation ","⟩ := by
  have hscan : Token.scan Lexicon.none "f.asm" labelLine = .ok labelTokens := by
    decide +kernel
  have hlines := (lines_compose.1 Lexicon.none "f.asm" labelLine stringLines _ hscan).1
    [Token.plain .string "\n" ⟨"f.asm", 1, 1⟩, Token.plain .punctuation "," ⟨"f.asm", 2, 2⟩]
    (by decide +kernel)
  have hdigits := (lines_compose.1 Lexicon.none "f.asm" labelLine ['0', 'x'] _ hscan).2
    ⟨⟨"f.asm", 1, 1⟩, .missingDigits "0x"⟩ (by decide +kernel)
  have hparse := lines_compose.2 labelTokens [Token.plain .punctuation "," ⟨"f.asm", 2, 1⟩]
    (Token.plain .lineBreak "\n" ⟨"f.asm", 1, 5⟩) rfl
  have hlabel : Statement.parse labelTokens =
      .ok [Statement.unplaced .label (Token.plain .identifier "a" ⟨"f.asm", 1, 1⟩) []] := rfl
  have hcomma := (hparse.2 _ hlabel).1 _ rfl
  exact ⟨hscan, hlines, hdigits, hcomma⟩

end WordAsm
