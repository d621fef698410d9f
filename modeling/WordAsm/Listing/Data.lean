import WordAsm.Listing.Chunk
import WordAsm.Listing.Line

/-! Data blocks: bytes that are not code, listed as words of sixteen bits. Runs of at least four
printable characters become numbered strings and take a zero word behind them along; everything
else is listed in hexadecimal, eight words a line, and an odd last byte on its own. -/

namespace WordAsm.Listing

/-- The word holds one printable ASCII character. -/
def isCharWord (word : UInt16) : Bool :=
  0x20 ≤ word && word ≤ 0x7e

def hexLines (words : List UInt16) : List Line :=
  (chunks 8 words).map Line.words

/-- The words of a block, and the byte left over at its end. -/
def splitWords : List UInt8 → List UInt16 × Option UInt8
  | high :: low :: rest =>
    let (words, odd) := splitWords rest
    ((high.toUInt16 <<< 8 ||| low.toUInt16) :: words, odd)
  | [byte] => ([], some byte)
  | [] => ([], none)

/-- What stands behind a string, without the zero word that ends it. -/
def dropZero : List UInt16 → Bool × List UInt16
  | 0 :: rest => (true, rest)
  | rest => (false, rest)

theorem length_dropZero_le (words : List UInt16) : (dropZero words).2.length ≤ words.length := by
  unfold dropZero
  split
  · simp
  · exact Nat.le_refl _

theorem length_afterRun_lt (word : UInt16) (words : List UInt16) :
    (((word :: words).dropWhile (!isCharWord ·)).dropWhile isCharWord).length
      < (word :: words).length := by
  have hle (p : UInt16 → Bool) (l : List UInt16) : (l.dropWhile p).length ≤ l.length :=
    (List.dropWhile_suffix p).length_le
  by_cases h : isCharWord word = true
  · have := hle isCharWord words
    simp only [List.dropWhile_cons, h, Bool.not_true, Bool.false_eq_true, ↓reduceIte,
      List.length_cons]
    omega
  · have h₁ := hle (!isCharWord ·) words
    have h₂ := hle isCharWord (words.dropWhile (!isCharWord ·))
    simp only [Bool.not_eq_true] at h
    simp only [List.dropWhile_cons, h, Bool.not_false, ↓reduceIte, List.length_cons]
    omega

/-- The lines of words, and the number of the next string, where the first one gets `index`. -/
def wordLines (index : Nat) (words : List UInt16) : List Line × Nat :=
  match words with
  | [] => ([], index)
  | word :: words =>
    let all := word :: words
    let plain := all.takeWhile (!isCharWord ·)
    let text := (all.dropWhile (!isCharWord ·)).takeWhile isCharWord
    let rest := (all.dropWhile (!isCharWord ·)).dropWhile isCharWord
    if text.length < 4 then
      let (lines, index) := wordLines index rest
      (hexLines (plain ++ text) ++ lines, index)
    else
      let (lines, next) := wordLines (index + 1) (dropZero rest).2
      (hexLines plain ++ .string index text (dropZero rest).1 :: lines, next)
termination_by words.length
decreasing_by
  · exact length_afterRun_lt word words
  · exact Nat.lt_of_le_of_lt (length_dropZero_le _) (length_afterRun_lt word words)

/-- The lines of a block, and the number of the next string. -/
def dataLines (index : Nat) (bytes : List UInt8) : List Line × Nat :=
  let (words, odd) := splitWords bytes
  let (lines, next) := wordLines index words
  (lines ++ odd.toList.map Line.byte, next)

end WordAsm.Listing
