import Mathlib.Data.List.DropRight
import WordAsm.Proofs.Outcomes
import WordAsm.Token.Scanner

/-! Positions in a source. The position behind a part of the source tells how many lines it has and
how long the last of them is, and every token stands at the position of its first character. What
the scanner finds fault with it finds at a character of the source, and it lets no number pass that
has no value. -/

namespace WordAsm

namespace Position

/-- The position is that of a character of the source: its row counts the line feeds before the
character, its column the characters behind the last of them. -/
def PointsInto (file : String) (source : List Char) (pos : Position) : Prop :=
  ∃ before c rest, source = before ++ c :: rest ∧
    pos = ⟨file, 1 + before.count '\n', 1 + (before.rtakeWhile (· ≠ '\n')).length⟩

@[simp]
theorem after_append (pos : Position) (front rest : List Char) :
    pos.after (front ++ rest) = (pos.after front).after rest :=
  List.foldl_append

/-- The position behind the start of a source, counted. -/
theorem start_after (file : String) (before : List Char) :
    (start file).after before =
      ⟨file, 1 + before.count '\n', 1 + (before.rtakeWhile (· ≠ '\n')).length⟩ := by
  induction before using List.reverseRecOn with
  | nil => rfl
  | append_singleton before c ih =>
    rw [after_append, ih]
    change step _ c = _
    rw [step]
    split
    · rename_i hc
      subst hc
      rw [List.rtakeWhile_concat_neg _ _ _ (by simp), List.count_append, List.count_singleton_self]
      simp [Int.add_assoc]
    · rename_i hc
      rw [List.rtakeWhile_concat_pos _ _ _ (by simpa using hc), List.count_append,
        List.count_eq_zero_of_not_mem (l := [c]) (by simpa using Ne.symm hc)]
      simp [Int.add_assoc]

/-- A text without line feeds moves the column only. -/
theorem after_of_line (pos : Position) (text : List Char) (h : ∀ c ∈ text, c ≠ '\n') :
    pos.after text = { pos with col := pos.col + text.length } := by
  induction text generalizing pos with
  | nil => simp [after]
  | cons c text ih =>
    have hstep : pos.step c = { pos with col := pos.col + 1 } := by
      rw [step, if_neg (h c List.mem_cons_self)]
    change (pos.step c).after text = _
    rw [ih _ fun other hother => h other (List.mem_cons_of_mem c hother), hstep]
    simp only [List.length_cons, Position.mk.injEq, true_and]
    omega

/-- The position is the one behind all of the source but `rest`. -/
def Before (file : String) (source rest : List Char) (pos : Position) : Prop :=
  ∃ front, source = front ++ rest ∧ pos = (start file).after front

variable {file : String} {source rest : List Char} {pos : Position} {c : Char}

theorem before_start (file : String) (source : List Char) :
    Before file source source (start file) :=
  ⟨[], rfl, rfl⟩

theorem Before.after {text : List Char} (h : Before file source (text ++ rest) pos) :
    Before file source rest (pos.after text) := by
  obtain ⟨front, hsource, rfl⟩ := h
  refine ⟨front ++ text, ?_, (after_append _ _ _).symm⟩
  rw [hsource, List.append_assoc]

theorem Before.step (h : Before file source (c :: rest) pos) :
    Before file source rest (pos.step c) :=
  @Before.after file source rest pos [c] h

theorem Before.pointsInto (h : Before file source (c :: rest) pos) :
    pos.PointsInto file source := by
  obtain ⟨front, hsource, rfl⟩ := h
  exact ⟨front, c, rest, hsource, start_after file front⟩

end Position

/-- The fault is of one of the kinds given and stands at a position of the kind wanted. -/
structure Error.Found (kinds : List FaultKind) (within : Position → Prop) (e : Error) : Prop where
  kind : e.fault.kind ∈ kinds
  pos : within e.pos

namespace Token

open WordAsm.Text

/-- The token has a value in one of the bases that numbers are written in. -/
def Readable (token : Token) : Prop :=
  (token.radix = 2 ∨ token.radix = 10 ∨ token.radix = 16) ∧ ∃ value, token.value = .ok value

/-- The token stands at a position of the kind wanted, and if it is a number it can be read. -/
structure Sound (within : Position → Prop) (token : Token) : Prop where
  pos : within token.pos
  number : token.kind = .number → token.Readable

theorem sound_plain {within : Position → Prop} (kind : Kind) (text : String) (pos : Position)
    (hpos : within pos) (hkind : kind ≠ .number) : (plain kind text pos).Sound within :=
  ⟨hpos, fun h => absurd h hkind⟩

variable {file : String} {source : List Char}

/-- Digits that the scanner accepts have a value. -/
theorem readable_of_digits (radix : Radix) (pos : Position) (digits : List Char) (n : Nat)
    (hne : digits ≠ []) (h : readDigits radix.base 0 digits = .ok n) :
    Readable ⟨String.ofList digits, .number, radix.base, pos, []⟩ := by
  have hbase : 2 ≤ (radix.base : Int) ∧ (radix.base : Int) ≤ 36 := by cases radix <;> decide
  refine ⟨?_, UInt64.ofNat n, ?_⟩
  · cases radix with
    | binary => exact .inl rfl
    | decimal => exact .inr (.inl rfl)
    | hexadecimal => exact .inr (.inr rfl)
  · have hread : readNumeral radix.base digits = .ok (UInt64.ofNat n) := by
      rw [readNumeral, if_neg (by simpa using hne), if_pos hbase, Int.toNat_natCast, h]
      rfl
    rw [value, if_pos rfl, String.toList_ofList, hread]

theorem ends_readNumber (pos : Position) (radix : Radix) (digits rest : List Char)
    (hpos : pos.Before file source (radix.mark.toList ++ (digits ++ rest)))
    (hpoints : pos.PointsInto file source) (hline : ∀ c ∈ digits, c ≠ '\n') :
    Ends (Sound (Position.PointsInto file source))
      (Error.Found [.lexical] (Position.PointsInto file source)) (readNumber pos radix digits) := by
  rw [readNumber]
  split
  · exact ⟨List.mem_singleton_self _, hpoints⟩
  · rename_i hne
    split
    · -- the bad digit stands behind the mark and the digits that are good
      rename_i c bad hbad
      have hdigits : digits = digits.takeWhile radix.isDigit ++ c :: bad := by
        rw [← hbad, List.takeWhile_append_dropWhile]
      have hmark : '\n' ∉ radix.mark.toList := by cases radix <;> decide
      have hgood : ∀ c ∈ radix.mark.toList ++ digits.takeWhile radix.isDigit, c ≠ '\n' := by
        intro c hc
        rcases List.mem_append.mp hc with hc | hc
        · exact fun hbreak => hmark (hbreak ▸ hc)
        · exact hline c (List.takeWhile_subset _ hc)
      have hbehind : Position.Before file source (c :: bad ++ rest)
          (pos.after (radix.mark.toList ++ digits.takeWhile radix.isDigit)) := by
        apply Position.Before.after
        rwa [List.append_assoc, ← List.append_assoc _ (c :: bad), ← hdigits]
      rw [Position.after_of_line _ _ hgood] at hbehind
      refine ⟨List.mem_singleton_self _, ?_⟩
      have hcol := hbehind.pointsInto
      rwa [List.length_append, Int.natCast_add, ← Int.add_assoc, String.length_toList] at hcol
    · split
      · rename_i n hread
        exact ⟨hpoints, fun _ => readable_of_digits radix pos digits n (by simpa using hne) hread⟩
      · exact ⟨List.mem_singleton_self _, hpoints⟩

theorem ends_readWord (lexicon : Lexicon) (pos : Position) (word rest : List Char)
    (hpos : pos.Before file source (word ++ rest)) (hne : word ≠ [])
    (hline : ∀ c ∈ word, c ≠ '\n') :
    Ends (Sound (Position.PointsInto file source))
      (Error.Found [.lexical] (Position.PointsInto file source)) (readWord lexicon pos word) := by
  have hpoints : pos.PointsInto file source := by
    cases word with
    | nil => exact absurd rfl hne
    | cons c word => exact hpos.pointsInto
  have hbehind (first second : Char) (digits : List Char)
      (hword : word = first :: second :: digits) : ∀ c ∈ digits, c ≠ '\n' := by
    intro c hc
    apply hline
    rw [hword]
    exact List.mem_cons_of_mem _ (List.mem_cons_of_mem _ hc)
  rw [readWord.eq_def]
  split
  · rename_i digits
    exact ends_readNumber pos .hexadecimal digits rest hpos hpoints (hbehind _ _ digits rfl)
  · rename_i digits
    exact ends_readNumber pos .binary digits rest hpos hpoints (hbehind _ _ digits rfl)
  · split
    · exact ends_readNumber pos .decimal _ rest hpos hpoints hline
    · dsimp only
      split
      · rename_i cls _
        exact sound_plain _ _ pos hpoints (by cases cls <;> exact nofun)
      · exact sound_plain _ _ pos hpoints (by decide)
  · exact absurd rfl hne

/-- A string ends behind what was read of it, and its faults are at its start or at a backslash. -/
theorem ends_readString (start : Position) (hstart : start.PointsInto file source) (quote : Char)
    (pos : Position) (text rest : List Char) (hpos : pos.Before file source rest) :
    Ends (fun result => result.pos.Before file source result.rest)
      (Error.Found [.lexical] (Position.PointsInto file source))
      (readString start quote pos text rest) := by
  fun_induction readString start quote pos text rest with
  | case1 => exact ⟨List.mem_singleton_self _, hstart⟩
  | case2 pos text rest => exact hpos.step
  | case3 pos text hquote => exact ⟨List.mem_singleton_self _, hpos.pointsInto⟩
  | case4 pos text e rest d hd hquote ih => exact ih hpos.step.step
  | case5 pos text e rest hd hquote => exact ⟨List.mem_singleton_self _, hpos.pointsInto⟩
  | case6 pos text c rest hquote hc ih => exact ih hpos.step

/-- A token in front of those that are scanned behind it. -/
theorem ends_token {within : Position → Prop} {token : Token} {later : Except Error (List Token)}
    (h : token.Sound within)
    (hlater : Ends (fun tokens => ∀ token ∈ tokens, token.Sound within)
      (Error.Found [.lexical] within) later) :
    Ends (fun tokens => ∀ token ∈ tokens, token.Sound within) (Error.Found [.lexical] within)
      (do let tokens ← later; return token :: tokens) := by
  apply hlater.bind
  intro tokens _ htokens
  exact List.forall_mem_cons.mpr ⟨h, htokens⟩

theorem ends_scanFrom (lexicon : Lexicon) (pos : Position) (rest : List Char)
    (hpos : pos.Before file source rest) :
    Ends (fun tokens => ∀ token ∈ tokens, token.Sound (Position.PointsInto file source))
      (Error.Found [.lexical] (Position.PointsInto file source)) (scanFrom lexicon pos rest) := by
  fun_induction scanFrom lexicon pos rest with
  | case1 pos => exact List.forall_mem_nil _
  | case2 pos rest ih =>
    apply ih
    apply Position.Before.after
    rwa [List.cons_append, List.takeWhile_append_dropWhile]
  | case3 pos rest _ ih =>
    exact ends_token (sound_plain _ _ pos hpos.pointsInto (by decide)) (ih hpos.step)
  | case4 pos c rest _ _ _ ih => exact ih hpos.step
  | case5 pos c rest _ _ _ _ ih =>
    exact ends_token (sound_plain _ _ pos hpos.pointsInto (by decide)) (ih hpos.step)
  | case6 pos c rest _ _ _ _ _ e herror =>
    exact (ends_readString pos hpos.pointsInto c _ [] rest hpos.step).of_error herror
  | case7 pos c rest _ _ _ _ _ result hresult ih =>
    have hend := (ends_readString pos hpos.pointsInto c _ [] rest hpos.step).of_ok hresult
    exact ends_token (sound_plain _ _ pos hpos.pointsInto (by decide)) (ih hend)
  | case8 pos c rest _ _ _ _ _ hc word ih =>
    have hsplit : c :: rest = word ++ rest.dropWhile isWordChar := by
      rw [List.cons_append, List.takeWhile_append_dropWhile]
    rw [hsplit] at hpos
    have hline : ∀ c ∈ word, c ≠ '\n' := by
      rintro c hmem rfl
      have hword : ∀ c ∈ word, isWordChar c = true :=
        List.forall_mem_cons.mpr ⟨hc, fun c => List.mem_takeWhile_imp⟩
      exact absurd (hword _ hmem) (by decide)
    apply (ends_readWord lexicon pos word _ hpos (List.cons_ne_nil _ _) hline).bind
    intro token _ htoken
    exact ends_token htoken (ih hpos.after)
  | case9 pos c rest => exact ⟨List.mem_singleton_self _, hpos.pointsInto⟩

/-- What the scanner makes of a source. -/
theorem ends_scan (lexicon : Lexicon) (file : String) (source : List Char) :
    Ends (fun tokens => ∀ token ∈ tokens, token.Sound (Position.PointsInto file source))
      (Error.Found [.lexical] (Position.PointsInto file source)) (scan lexicon file source) :=
  ends_scanFrom lexicon _ source (Position.before_start file source)

end Token

end WordAsm
