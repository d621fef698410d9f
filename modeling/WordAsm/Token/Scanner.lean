import WordAsm.Fault
import WordAsm.Text.Blank
import WordAsm.Text.Digit
import WordAsm.Text.Letter
import WordAsm.Text.Lower

/-! Scanning source text into tokens. White space and comments from a semicolon to the end of the
line separate tokens, a line feed is a token, and words and numbers are maximal runs of letters,
digits and underscores. Scanning stops at the first fault. -/

namespace WordAsm

open WordAsm.Text

/-- Which class a word names a value of, if any. -/
abbrev Lexicon := String → Option Class

/-- The lexicon without words. -/
def Lexicon.none : Lexicon :=
  fun _ => Option.none

namespace Token

/-- A letter, a digit or an underscore. -/
def isWordChar (c : Char) : Bool :=
  c == '_' || isLetter c || isDigit c

inductive Radix where
  | binary
  | decimal
  | hexadecimal
  deriving DecidableEq, Repr

namespace Radix

def base : Radix → Nat
  | binary => 2
  | decimal => 10
  | hexadecimal => 16

/-- What stands before the digits. -/
def mark : Radix → String
  | binary => "0b"
  | decimal => ""
  | hexadecimal => "0x"

def isDigit (radix : Radix) (c : Char) : Bool :=
  match digitValue? c with
  | some d => d < radix.base
  | none => false

end Radix

/-- Reads the digits of a number that starts at `pos`. -/
def readNumber (pos : Position) (radix : Radix) (digits : List Char) : Except Error Token :=
  if digits.isEmpty then .error ⟨pos, .missingDigits radix.mark⟩
  else
    let good := digits.takeWhile radix.isDigit
    match digits.dropWhile radix.isDigit with
    | c :: _ =>
      let col := pos.col + radix.mark.length + good.length
      .error ⟨{ pos with col }, .invalidDigit c radix.base⟩
    | [] =>
      match readDigits radix.base 0 digits with
      | .ok _ => .ok ⟨String.ofList digits, .number, radix.base, pos, []⟩
      | .error _ => .error ⟨pos, .numberOutOfRange (radix.mark ++ String.ofList digits)⟩

/-- Classifies a word: a number if it starts with an ASCII digit, a named value if the lexicon
has it, and otherwise an identifier. -/
def readWord (lexicon : Lexicon) (pos : Position) (word : List Char) : Except Error Token :=
  match word with
  | '0' :: 'x' :: digits => readNumber pos .hexadecimal digits
  | '0' :: 'b' :: digits => readNumber pos .binary digits
  | c :: _ =>
    if c.isDigit then readNumber pos .decimal word
    else
      let text := String.ofList word
      match lexicon text with
      | some cls => .ok (plain (.ofClass cls) (lower text) pos)
      | none => .ok (plain .identifier text pos)
  | [] => .ok (plain .identifier "" pos)

/-- What a character stands for behind a backslash. -/
def unescape? (c : Char) : Option Char :=
  if c = 'n' then some '\n'
  else if c = '0' then some (Char.ofNat 0)
  else if c = '\\' ∨ c = '"' ∨ c = '\x27' then some c
  else none

/-- What is left of the source when a string has been read. -/
structure StringEnd where
  text : List Char
  pos : Position
  rest : List Char

/-- Reads a string behind its opening quote at `start`; `text` is what has been read of it, last
character first. -/
def readString (start : Position) (quote : Char) :
    (pos : Position) → (text : List Char) → List Char → Except Error StringEnd
  | _, _, [] => .error ⟨start, .unterminatedString⟩
  | pos, text, c :: rest =>
    if c = quote then .ok ⟨text.reverse, pos.step c, rest⟩
    else if c = '\\' then
      match rest with
      | [] => .error ⟨pos, .unterminatedEscape⟩
      | e :: rest =>
        match unescape? e with
        | some d => readString start quote ((pos.step c).step e) (d :: text) rest
        | none => .error ⟨pos, .unknownEscape e⟩
    else readString start quote (pos.step c) (c :: text) rest

theorem readString_length {start : Position} {quote : Char} {pos : Position}
    {text source : List Char} {result : StringEnd}
    (h : readString start quote pos text source = .ok result) :
    result.rest.length < source.length := by
  fun_induction readString start quote pos text source with
  | case1 => simp at h
  | case2 pos text rest =>
    injection h with h
    subst h
    simp
  | case3 => simp at h
  | case4 pos text hq e rest d hd ih =>
    have := ih h
    simp only [List.length_cons]
    omega
  | case5 => simp at h
  | case6 pos text c rest hq hb ih =>
    have := ih h
    simp only [List.length_cons]
    omega

theorem length_dropWhile_le (p : Char → Bool) (text : List Char) :
    (text.dropWhile p).length ≤ text.length :=
  (List.dropWhile_suffix p).length_le

/-- Scans a source from the position `pos` on. -/
def scanFrom (lexicon : Lexicon) (pos : Position) : List Char → Except Error (List Token)
  | [] => .ok []
  | c :: rest =>
    if c = ';' then
      scanFrom lexicon (pos.after (c :: rest.takeWhile (· ≠ '\n'))) (rest.dropWhile (· ≠ '\n'))
    else if c = '\n' then do
      let tokens ← scanFrom lexicon (pos.step c) rest
      return plain .lineBreak "\n" pos :: tokens
    else if isBlank c then
      scanFrom lexicon (pos.step c) rest
    else if c = ',' ∨ c = ':' then do
      let tokens ← scanFrom lexicon (pos.step c) rest
      return plain .punctuation c.toString pos :: tokens
    else if c = '"' ∨ c = '\x27' then
      match _ : readString pos c (pos.step c) [] rest with
      | .error e => .error e
      | .ok result => do
        let tokens ← scanFrom lexicon result.pos result.rest
        return plain .string (String.ofList result.text) pos :: tokens
    else if isWordChar c then do
      let word := c :: rest.takeWhile isWordChar
      let token ← readWord lexicon pos word
      let tokens ← scanFrom lexicon (pos.after word) (rest.dropWhile isWordChar)
      return token :: tokens
    else .error ⟨pos, .unexpectedCharacter c⟩
termination_by source => source.length
decreasing_by
  all_goals simp only [List.length_cons]
  · exact Nat.lt_succ_of_le (length_dropWhile_le _ rest)
  · omega
  · omega
  · omega
  · exact Nat.lt_succ_of_lt (readString_length ‹_›)
  · exact Nat.lt_succ_of_le (length_dropWhile_le _ rest)

/-- The tokens of a source file. -/
def scan (lexicon : Lexicon) (file : String) (source : List Char) : Except Error (List Token) :=
  scanFrom lexicon (.start file) source

end Token

end WordAsm
