import WordAsm.Proofs.LexicalGrammar

/-! How tokens cover a source. Every token has a span of the source, the spans follow one another,
and what lies between them is white space or comment. -/

namespace WordAsm

open WordAsm.Text

/-- A stretch of a source: the characters from `start` on, up to the one in front of `stop`. -/
structure Span where
  start : Nat
  stop : Nat
  deriving DecidableEq, Repr

namespace Span

def Contains (span : Span) (index : Nat) : Prop :=
  span.start ≤ index ∧ index < span.stop

/-- The span ends where the other starts, or earlier. -/
def Before (span other : Span) : Prop :=
  span.stop ≤ other.start

def chars (span : Span) (source : List Char) : List Char :=
  source.extract span.start span.stop

/-- A comment goes on from a semicolon to the next line feed, or to the end of the source. -/
structure IsComment (source : List Char) (span : Span) : Prop where
  semicolon : source[span.start]? = some ';'
  line : ∀ index, span.Contains index → source[index]? ≠ some '\n'
  stop : span.stop = source.length ∨ source[span.stop]? = some '\n'

/-- The characters of the span have the property, and the characters around it have not. -/
structure IsMaximal (p : Char → Bool) (source : List Char) (span : Span) : Prop where
  all : ∀ c ∈ span.chars source, p c = true
  front : ∀ c ∈ (source.take span.start).getLast?, p c = false
  behind : ∀ c ∈ (source.drop span.stop).head?, p c = false

/-- The span of a part of a source. -/
theorem chars_of_split (front chars rest : List Char) :
    (Span.mk front.length (front.length + chars.length)).chars (front ++ (chars ++ rest)) =
      chars := by
  rw [Span.chars, List.extract, List.drop_left, Nat.add_sub_cancel_left, List.take_left]

theorem mem_chars (span : Span) (source : List Char) (index : Nat) (c : Char)
    (hindex : span.Contains index) (hc : source[index]? = some c) : c ∈ span.chars source := by
  obtain ⟨hstart, hstop⟩ := hindex
  apply List.mem_of_getElem? (i := index - span.start)
  rw [Span.chars, List.extract, List.getElem?_take_of_lt (by omega), List.getElem?_drop,
    Nat.add_sub_cancel' hstart]
  exact hc

end Span

namespace Token

/-- The token stands at the span: its position is counted from what stands before the span, the
characters of the span spell it, and if it is a word or a number they are all that belong to it. -/
structure Located (lexicon : Lexicon) (file : String) (source : List Char) (token : Token)
    (span : Span) : Prop where
  nonempty : span.start < span.stop
  within : span.stop ≤ source.length
  pos : token.pos = ⟨file, 1 + (source.take span.start).count '\n',
    1 + ((source.take span.start).rtakeWhile (· ≠ '\n')).length⟩
  spelled : Spells lexicon token.pos token (span.chars source)
  maximal : token.kind ∉ [.lineBreak, .punctuation, .string] →
    span.IsMaximal isWordChar source

/-- The character at `index` is white space, but no line feed, or it is part of a comment behind
`start` in which no token stands. -/
def Skipped (source : List Char) (start : Nat) (spans : List Span) (index : Nat) : Prop :=
  (∃ c, source[index]? = some c ∧ isBlank c = true ∧ c ≠ '\n') ∨
    ∃ comment : Span, start ≤ comment.start ∧ comment.IsComment source ∧
      comment.Contains index ∧ ∀ span ∈ spans, span.Before comment ∨ comment.Before span

/-- The source from `start` on is covered by the spans of the tokens and by what lies between
them. -/
structure Covers (lexicon : Lexicon) (file : String) (source : List Char) (start : Nat)
    (tokens : List Token) (spans : List Span) : Prop where
  located : List.Forall₂ (Located lexicon file source) tokens spans
  ordered : spans.Pairwise Span.Before
  behind : ∀ span ∈ spans, start ≤ span.start
  gaps : ∀ index, start ≤ index → index < source.length →
    (∀ span ∈ spans, ¬ span.Contains index) → Skipped source start spans index

variable {lexicon : Lexicon} {file : String} {source : List Char} {tokens : List Token}
  {spans : List Span}

theorem covers_end : Covers lexicon file source source.length [] [] := by
  refine ⟨.nil, .nil, List.forall_mem_nil _, ?_⟩
  intro index hstart hlength
  omega

/-- A blank in front of what is covered. -/
theorem Covers.blank {start : Nat} (h : Covers lexicon file source (start + 1) tokens spans)
    {c : Char} (hc : source[start]? = some c) (hblank : isBlank c = true) (hline : c ≠ '\n') :
    Covers lexicon file source start tokens spans := by
  refine ⟨h.located, h.ordered, fun span hspan => Nat.le_of_succ_le (h.behind span hspan), ?_⟩
  intro index hstart hlength houtside
  by_cases hindex : index = start
  · exact .inl ⟨c, hindex ▸ hc, hblank, hline⟩
  · obtain hskipped | ⟨comment, hcomment, hrest⟩ := h.gaps index (by omega) hlength houtside
    · exact .inl hskipped
    · exact .inr ⟨comment, by omega, hrest⟩

/-- A comment in front of what is covered. -/
theorem Covers.comment {comment : Span} (h : Covers lexicon file source comment.stop tokens spans)
    (hle : comment.start ≤ comment.stop) (hcomment : comment.IsComment source) :
    Covers lexicon file source comment.start tokens spans := by
  refine ⟨h.located, h.ordered, fun span hspan => hle.trans (h.behind span hspan), ?_⟩
  intro index hstart hlength houtside
  by_cases hindex : index < comment.stop
  · exact .inr ⟨comment, le_rfl, hcomment, ⟨hstart, hindex⟩, fun span hspan =>
      .inr (h.behind span hspan)⟩
  · obtain hskipped | ⟨other, hother, hrest⟩ := h.gaps index (by omega) hlength houtside
    · exact .inl hskipped
    · exact .inr ⟨other, hle.trans hother, hrest⟩

/-- A token in front of what is covered. -/
theorem Covers.token {token : Token} {span : Span}
    (h : Covers lexicon file source span.stop tokens spans)
    (hlocated : Located lexicon file source token span) :
    Covers lexicon file source span.start (token :: tokens) (span :: spans) := by
  have hnonempty := hlocated.nonempty
  refine ⟨.cons hlocated h.located, .cons h.behind h.ordered, ?_, ?_⟩
  · rw [List.forall_mem_cons]
    exact ⟨le_rfl, fun other hother => hnonempty.le.trans (h.behind other hother)⟩
  · intro index hstart hlength houtside
    obtain ⟨hspan, hspans⟩ := List.forall_mem_cons.mp houtside
    have hstop : span.stop ≤ index := by
      by_contra hlt
      exact hspan ⟨hstart, by omega⟩
    obtain hskipped | ⟨comment, hcomment, hiscomment, hindex, hrest⟩ :=
      h.gaps index hstop hlength hspans
    · exact .inl hskipped
    · refine .inr ⟨comment, hnonempty.le.trans hcomment, hiscomment, hindex, ?_⟩
      exact List.forall_mem_cons.mpr ⟨.inl hcomment, hrest⟩

theorem pos_of_readNumber {pos : Position} {radix : Radix} {digits : List Char} {token : Token}
    (h : readNumber pos radix digits = .ok token) : token.pos = pos := by
  rw [readNumber] at h
  split at h
  · cases h
  · dsimp only at h
    split at h
    · cases h
    · split at h
      · cases h
        rfl
      · cases h

theorem pos_of_readWord {pos : Position} {word : List Char} {token : Token}
    (h : readWord lexicon pos word = .ok token) : token.pos = pos := by
  rw [readWord.eq_def] at h
  split at h
  · exact pos_of_readNumber h
  · exact pos_of_readNumber h
  · split at h
    · exact pos_of_readNumber h
    · dsimp only at h
      split at h
      · cases h
        rfl
      · cases h
        rfl
  · cases h
    rfl

theorem Spells.pos_eq {pos : Position} {token : Token} {chars : List Char}
    (h : Spells lexicon pos token chars) : token.pos = pos := by
  cases h with
  | lineBreak | punctuation | string => rfl
  | word _ _ hread => exact pos_of_readWord hread

theorem Spells.chars_ne_nil {pos : Position} {token : Token} {chars : List Char}
    (h : Spells lexicon pos token chars) : chars ≠ [] := by
  cases h with
  | lineBreak => exact List.cons_ne_nil _ _
  | punctuation => exact List.cons_ne_nil _ _
  | string => exact List.cons_ne_nil _ _
  | word hne => exact hne

theorem Spells.word_of_kind {pos : Position} {token : Token} {chars : List Char}
    (h : Spells lexicon pos token chars)
    (hkind : token.kind ∉ [.lineBreak, .punctuation, .string]) :
    ∀ c ∈ chars, isWordChar c = true := by
  cases h with
  | lineBreak => exact absurd (.head _) hkind
  | punctuation => exact absurd (.tail _ (.head _)) hkind
  | string => exact absurd (.tail _ (.tail _ (.head _))) hkind
  | word _ hchars => exact hchars

/-- A line feed is a token of its own, or it belongs to a string. -/
theorem Spells.kind_of_lineFeed {pos : Position} {token : Token} {chars : List Char}
    (h : Spells lexicon pos token chars) (hchars : '\n' ∈ chars) :
    token.kind = .string ∨ token.kind = .lineBreak ∧ chars = ['\n'] := by
  cases h with
  | lineBreak => exact .inr ⟨rfl, rfl⟩
  | punctuation hc =>
    rw [← List.mem_singleton.mp hchars] at hc
    exact absurd hc (by decide)
  | string => exact .inl rfl
  | word _ hword => exact absurd (hword '\n' hchars) (by decide)

/-- No word goes on from `front` into `rest`. -/
def Parted (front rest : List Char) : Prop :=
  ∀ c ∈ front.getLast?, isWordChar c = true → Stops rest

theorem located_of_split {front chars rest : List Char} {token : Token}
    (hspells : Spells lexicon ((Position.start file).after front) token chars)
    (hfront : Parted front (chars ++ rest)) (hrest : Parted chars rest) :
    Located lexicon file (front ++ (chars ++ rest)) token
      ⟨front.length, front.length + chars.length⟩ := by
  have hpos := hspells.pos_eq
  have hne := hspells.chars_ne_nil
  have hlength := List.length_pos_of_ne_nil hne
  refine ⟨by simp only; omega, ?_, ?_, ?_, ?_⟩
  · simp only [List.length_append]
    omega
  · rw [hpos, List.take_left, Position.start_after]
  · rw [hpos, Span.chars_of_split]
    exact hspells
  · intro hkind
    have hword := hspells.word_of_kind hkind
    refine ⟨?_, ?_, ?_⟩
    · rw [Span.chars_of_split]
      exact hword
    · -- a character that goes on with the word would have parted it from its front
      obtain ⟨first, more, rfl⟩ := List.exists_cons_of_ne_nil hne
      rw [List.take_left]
      intro c hc
      by_contra hwordChar
      have hfirst := hfront c hc (Bool.not_eq_false _ ▸ hwordChar) first rfl
      rw [hword first List.mem_cons_self] at hfirst
      cases hfirst
    · have hlast := List.getLast_mem hne
      rw [← List.length_append, ← List.append_assoc, List.drop_left]
      exact hrest _ (List.getLast?_eq_some_getLast hne) (hword _ hlast)

theorem Spells.parted {pos : Position} {token : Token} {chars rest : List Char}
    (h : Spells lexicon pos token chars)
    (hend : (∀ c ∈ chars, isWordChar c = true) → Stops rest) :
    Parted chars rest := by
  intro c hc hword
  cases h with
  | lineBreak =>
    cases hc
    exact absurd hword (by decide)
  | punctuation hmark =>
    cases hc
    exact absurd hword (Bool.eq_false_iff.mp (isWordChar_of_punctuation hmark))
  | string hquote =>
    rw [List.getLast?_concat] at hc
    cases hc
    exact absurd hword (Bool.eq_false_iff.mp (isWordChar_of_quote hquote))
  | word _ hchars _ => exact hend hchars

theorem isComment_of_split {front text rest : List Char} (htext : ∀ c ∈ text, c ≠ '\n')
    (hend : ∀ c ∈ rest.head?, c = '\n') :
    (Span.mk front.length (front.length + (';' :: text).length)).IsComment
      (front ++ (';' :: text ++ rest)) := by
  refine ⟨by simp, ?_, ?_⟩
  · intro index hindex hc
    have hmem := Span.mem_chars _ _ index '\n' hindex hc
    rw [Span.chars_of_split] at hmem
    rcases List.mem_cons.mp hmem with hmem | hmem
    · exact absurd hmem (by decide)
    · exact htext '\n' hmem rfl
  · cases rest with
    | nil => exact .inl (by simp)
    | cons c rest =>
      rw [← hend c rfl]
      exact .inr (by simp)

/-- What follows the lexical grammar behind `front` is covered from there on. -/
theorem Lexes.covers {pos : Position} {rest front : List Char} (h : Lexes lexicon pos rest tokens)
    (hpos : pos = (Position.start file).after front) (hfront : Parted front rest) :
    ∃ spans, Covers lexicon file (front ++ rest) front.length tokens spans := by
  -- with every piece that is scanned the front grows by it, and the cover starts behind the front
  induction h generalizing front with
  | done pos =>
    have hend := @covers_end lexicon file front
    exact ⟨[], by rwa [List.append_nil]⟩
  | @blank pos c rest tokens hblank hline _ ih =>
    have hparted : Parted (front ++ [c]) rest := by
      intro d hd hword
      rw [List.getLast?_concat] at hd
      cases hd
      rw [isWordChar_of_isBlank c hblank] at hword
      cases hword
    obtain ⟨spans, hcovers⟩ := @ih (front ++ [c]) (by simp [hpos]; rfl) hparted
    rw [List.append_assoc, List.length_append] at hcovers
    exact ⟨spans, hcovers.blank (by simp) hblank hline⟩
  | @comment pos text rest tokens htext hend _ ih =>
    have hparted : Parted (front ++ (';' :: text)) rest := by
      intro d _ _ c hc
      rw [hend c hc]
      decide
    obtain ⟨spans, hcovers⟩ :=
      @ih (front ++ (';' :: text)) (by simp [hpos]) hparted
    rw [List.append_assoc, List.length_append] at hcovers
    have hcomment := @isComment_of_split front text rest htext hend
    exact ⟨spans, hcovers.comment (Nat.le_add_right _ _) hcomment⟩
  | @token pos token chars rest tokens hspells hend _ ih =>
    subst hpos
    have hparted := hspells.parted hend
    have hlocated := located_of_split hspells hfront hparted
    have hparted' : Parted (front ++ chars) rest := by
      intro c hc
      rw [List.getLast?_append_of_ne_nil _ hspells.chars_ne_nil] at hc
      exact hparted c hc
    obtain ⟨spans, hcovers⟩ := @ih (front ++ chars) (Position.after_append _ _ _).symm hparted'
    rw [List.append_assoc, List.length_append] at hcovers
    exact ⟨_, hcovers.token hlocated⟩

/-- Outside the spans no line feed is left. -/
theorem Covers.exists_span (h : Covers lexicon file source 0 tokens spans) (index : Nat)
    (hline : source[index]? = some '\n') : ∃ span ∈ spans, span.Contains index := by
  by_contra hnone
  have houtside : ∀ span ∈ spans, ¬ span.Contains index := by
    intro span hspan hindex
    exact hnone ⟨span, hspan, hindex⟩
  obtain ⟨c, hc, -, hne⟩ | ⟨comment, -, hcomment, hindex, -⟩ :=
    h.gaps index (Nat.zero_le _) (List.getElem?_eq_some_iff.mp hline).1 houtside
  · exact hne (Option.some.inj (hc.symm.trans hline))
  · exact hcomment.line index hindex hline

/-- A line feed outside the strings is a token. -/
theorem Covers.exists_lineBreak (h : Covers lexicon file source 0 tokens spans) (index : Nat)
    (hline : source[index]? = some '\n')
    (hstrings : ∀ entry ∈ tokens.zip spans, entry.1.kind = .string → ¬ entry.2.Contains index) :
    ∃ (number : Nat) (token : Token), tokens[number]? = some token ∧ token.kind = .lineBreak ∧
      spans[number]? = some ⟨index, index + 1⟩ := by
  obtain ⟨span, hspan, hindex⟩ := h.exists_span index hline
  obtain ⟨number, hnumber⟩ := List.mem_iff_getElem?.mp hspan
  obtain ⟨token, htoken, hlocated⟩ := forall₂_getElem? h.located.flip number span hnumber
  have hentry : (token, span) ∈ tokens.zip spans := by
    apply List.mem_of_getElem? (i := number)
    exact List.getElem?_zip_eq_some.mpr ⟨htoken, hnumber⟩
  have hmem := span.mem_chars source index '\n' hindex hline
  obtain hstring | ⟨hkind, hchars⟩ := hlocated.spelled.kind_of_lineFeed hmem
  · exact absurd hindex (hstrings (token, span) hentry hstring)
  · refine ⟨number, token, htoken, hkind, ?_⟩
    have hlength := congrArg List.length hchars
    have hwithin := hlocated.within
    rw [Span.chars, List.extract, List.length_take, List.length_drop, List.length_singleton]
      at hlength
    obtain ⟨hstart, hstop⟩ := hindex
    have hspan : span = ⟨index, index + 1⟩ := by
      obtain ⟨start, stop⟩ := span
      simp only [Span.mk.injEq] at *
      omega
    rw [hnumber, hspan]

/-- A span that is not empty occurs once among spans that follow one another. -/
theorem index_of_span (hordered : spans.Pairwise Span.Before) (span : Span)
    (hnonempty : span.start < span.stop) (number number' : Nat)
    (h : spans[number]? = some span) (h' : spans[number']? = some span) : number = number' := by
  have hbefore (i j : Nat) (hi : spans[i]? = some span) (hj : spans[j]? = some span)
      (hij : i < j) : False := by
    obtain ⟨hilt, hi⟩ := List.getElem?_eq_some_iff.mp hi
    obtain ⟨hjlt, hj⟩ := List.getElem?_eq_some_iff.mp hj
    have hspan := List.pairwise_iff_getElem.mp hordered i j hilt hjlt hij
    rw [hi, hj, Span.Before] at hspan
    omega
  rcases Nat.lt_trichotomy number number' with hlt | heq | hlt
  · exact (hbefore number number' h h' hlt).elim
  · exact heq
  · exact (hbefore number' number h' h hlt).elim

end Token

/-- The tokens of a source stand at spans that follow one another: every position is counted from
what stands before its span, and words and numbers are as long as they can be. What lies outside the
spans is white space or comment, and a line feed that is not part of a string is one token. -/
theorem tokens_cover_source (lexicon : Lexicon) (file : String) (source : List Char)
    (tokens : List Token) (h : Token.scan lexicon file source = .ok tokens) :
    ∃ spans : List Span,
      List.Forall₂ (Token.Located lexicon file source) tokens spans ∧
      spans.Pairwise Span.Before ∧
      (∀ index c, source[index]? = some c → (∀ span ∈ spans, ¬ span.Contains index) →
        isBlank c = true ∧ c ≠ '\n' ∨
          ∃ comment : Span, comment.IsComment source ∧ comment.Contains index ∧
            ∀ span ∈ spans, span.Before comment ∨ comment.Before span) ∧
      (∀ index, source[index]? = some '\n' →
        (∀ entry ∈ tokens.zip spans, entry.1.kind = .string → ¬ entry.2.Contains index) →
        ∃! number : Nat, ∃ token : Token, tokens[number]? = some token ∧
          token.kind = .lineBreak ∧ spans[number]? = some ⟨index, index + 1⟩) := by
  have hparted : Token.Parted [] source := by
    intro c hc
    cases hc
  obtain ⟨spans, hcovers⟩ := @Token.Lexes.covers lexicon file tokens (.start file) source []
    (Token.lexes_of_scanFrom h) rfl hparted
  have hgaps : ∀ index c, source[index]? = some c → (∀ span ∈ spans, ¬ span.Contains index) →
      isBlank c = true ∧ c ≠ '\n' ∨
        ∃ comment : Span, comment.IsComment source ∧ comment.Contains index ∧
          ∀ span ∈ spans, span.Before comment ∨ comment.Before span := by
    intro index c hc houtside
    obtain ⟨d, hd, hskipped⟩ | ⟨comment, -, hcomment⟩ :=
      hcovers.gaps index (Nat.zero_le _) (List.getElem?_eq_some_iff.mp hc).1 houtside
    · cases hc.symm.trans hd
      exact .inl hskipped
    · exact .inr ⟨comment, hcomment⟩
  refine ⟨spans, hcovers.located, hcovers.ordered, hgaps, ?_⟩
  intro index hline hstrings
  obtain ⟨number, hnumber⟩ := hcovers.exists_lineBreak index hline hstrings
  refine ⟨number, hnumber, ?_⟩
  rintro other ⟨_, -, -, hother⟩
  obtain ⟨_, -, -, hspan⟩ := hnumber
  exact Token.index_of_span hcovers.ordered _ (Nat.lt_succ_self index) other number hother hspan

/-- A string over two lines with a semicolon in it, and a comment with a quote in it. -/
def quotedLines : List Char :=
  ['"', '\n', ';', '"', ' ', ';', ' ', '"', '\n']

def quotedTokens : List Token :=
  [Token.plain .string "\n;" ⟨"quoted.asm", 1, 1⟩, Token.plain .lineBreak "\n" ⟨"quoted.asm", 2, 7⟩]

/-- The line feed in the string is no token, and the one behind the comment is. -/
theorem quotedLines_covered :
    Token.scan Lexicon.none "quoted.asm" quotedLines = .ok quotedTokens ∧
      ∃ first : Span,
        Token.Located Lexicon.none "quoted.asm" quotedLines
          (Token.plain .string "\n;" ⟨"quoted.asm", 1, 1⟩) first ∧
        first.Before ⟨8, 9⟩ := by
  have hscan : Token.scan Lexicon.none "quoted.asm" quotedLines = .ok quotedTokens := by
    decide +kernel
  obtain ⟨spans, hlocated, hordered, -, hbreaks⟩ := tokens_cover_source _ _ _ _ hscan
  obtain ⟨first, more, hfirst, hmore, rfl⟩ := List.forall₂_cons_left_iff.mp hlocated
  obtain ⟨second, _, hsecond, hnone, rfl⟩ := List.forall₂_cons_left_iff.mp hmore
  cases hnone
  have hbefore : first.stop ≤ second.start := (List.pairwise_cons.mp hordered).1 second (.head _)
  have hstop : second.stop ≤ 9 := hsecond.within
  have hstart := hsecond.nonempty
  -- the string ends in front of the last character, which is the line feed
  have hstrings : ∀ entry ∈ quotedTokens.zip [first, second], entry.1.kind = .string →
      ¬ entry.2.Contains 8 := by
    intro entry hentry hstring hindex
    rcases List.mem_cons.mp hentry with rfl | hentry
    · have hlt : 8 < first.stop := hindex.2
      omega
    · cases List.mem_singleton.mp hentry
      cases hstring
  obtain ⟨number, ⟨token, htoken, hkind, hspan⟩, -⟩ := hbreaks 8 rfl hstrings
  refine ⟨hscan, first, hfirst, ?_⟩
  rcases number with _ | _ | number
  · cases htoken
    cases hkind
  · cases hspan
    exact hbefore
  · cases htoken

end WordAsm
