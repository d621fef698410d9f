import WordAsm.Listing.Data
import WordAsm.Proofs.Words
import WordAsm.Proofs.ListingText

/-! Data lines. The lines of a data block hold exactly its bytes, all of them whole words but for a
byte left over at the end, and number the strings that they label one after another. -/

namespace WordAsm

theorem flatten_chunks {α : Type} (size : Nat) (list : List α) :
    (chunks size list).flatten = list := by
  fun_induction chunks size list with
  | case1 => rfl
  | case2 head tail ih =>
    rw [List.flatten_cons, ih, List.cons_append, List.take_append_drop]

namespace Listing

/-- The bytes of a word. -/
def wordBytes (word : UInt16) : List UInt8 :=
  Word.toBytes 2 word.toUInt64

@[simp]
theorem length_wordBytes (word : UInt16) : (wordBytes word).length = 2 :=
  Word.toBytes_length 2 word.toUInt64

theorem wordBytes_pair (high low : UInt8) :
    wordBytes (high.toUInt16 <<< 8 ||| low.toUInt16) = [high, low] := by
  have hword : (high.toUInt16 <<< 8 ||| low.toUInt16).toNat = high.toNat * 256 + low.toNat := by
    have hhigh : high.toNat < 2 ^ 8 := high.toNat_lt
    have hlow : low.toNat < 2 ^ 8 := low.toNat_lt
    have hshift : (high.toUInt16 <<< 8).toNat = high.toNat <<< 8 := by
      rw [UInt16.toNat_shiftLeft, UInt8.toNat_toUInt16]
      change high.toNat <<< 8 % 2 ^ 16 = _
      rw [Nat.shiftLeft_eq]
      exact Nat.mod_eq_of_lt (by omega)
    rw [UInt16.toNat_or, hshift, UInt8.toNat_toUInt16, ← Nat.shiftLeft_add_eq_or_of_lt hlow,
      Nat.shiftLeft_eq]
  apply Word.ofBytes_injective
  · exact length_wordBytes _
  · have hhigh : high.toNat < 2 ^ 8 := high.toNat_lt
    have hlow : low.toNat < 2 ^ 8 := low.toNat_lt
    rw [wordBytes, Word.ofBytes_toBytes, UInt16.toNat_toUInt64, hword]
    simp only [Word.ofBytes, List.foldl_cons, List.foldl_nil]
    omega

/-- The bytes of a line of data, none for any other line. -/
def Line.data : Line → List UInt8
  | words values => values.flatMap wordBytes
  | string _ text terminated =>
    text.flatMap wordBytes ++ if terminated then wordBytes 0 else []
  | byte value => [value]
  | origin _ | label _ | code .. => []

/-- A line of whole words of data, in which a string holds printable characters only. -/
inductive Line.IsData : Line → Prop where
  | words (values : List UInt16) : IsData (words values)
  | string (index : Nat) (text : List UInt16) (terminated : Bool)
    (htext : ∀ word ∈ text, isCharWord word = true) : IsData (string index text terminated)

@[simp]
theorem length_wordsBytes (words : List UInt16) :
    (words.flatMap wordBytes).length = words.length * 2 :=
  length_flatMap_of_forall wordBytes 2 words fun word _ => length_wordBytes word

theorem Line.IsData.length_data {line : Line} (h : line.IsData) :
    ∃ count, line.data.length = count * 2 := by
  cases h with
  | words values => exact ⟨values.length, length_wordsBytes values⟩
  | string index text terminated _ =>
    rw [data, List.length_append, length_wordsBytes]
    cases terminated with
    | false => exact ⟨text.length, rfl⟩
    | true =>
      refine ⟨text.length + 1, ?_⟩
      rw [if_pos rfl, length_wordBytes, Nat.add_mul]

theorem splitWords_bytes (bytes : List UInt8) :
    (splitWords bytes).1.flatMap wordBytes ++ (splitWords bytes).2.toList = bytes := by
  fun_induction splitWords bytes with
  | case1 high low rest words odd h ih =>
    rw [h] at ih
    rw [List.flatMap_cons, wordBytes_pair, List.append_assoc, ih]
    rfl
  | case2 byte => rfl
  | case3 => rfl

theorem dropZero_append (words : List UInt16) :
    (if (dropZero words).1 then [0] else []) ++ (dropZero words).2 = words := by
  unfold dropZero
  split
  · rfl
  · rfl

/-- Words are cut into those before the first run of characters, the run and what follows it. -/
theorem run_append (words : List UInt16) :
    words.takeWhile (!isCharWord ·) ++ ((words.dropWhile (!isCharWord ·)).takeWhile isCharWord ++
      (words.dropWhile (!isCharWord ·)).dropWhile isCharWord) = words := by
  rw [List.takeWhile_append_dropWhile, List.takeWhile_append_dropWhile]

theorem hexLines_data (words : List UInt16) :
    (hexLines words).flatMap Line.data = words.flatMap wordBytes := by
  rw [hexLines, List.flatMap_map]
  change (chunks 8 words).flatMap (fun values => values.flatMap wordBytes) = _
  conv_rhs => rw [← flatten_chunks 8 words, ← List.flatMap_id, List.flatMap_assoc]
  rfl

/-- What the lines of words are: whole words of data that hold exactly these, with strings that are
numbered from `index` on. -/
structure WordLines (index : Nat) (words : List UInt16) (lines : List Line) (next : Nat) :
    Prop where
  data : ∀ line ∈ lines, line.IsData
  bytes : lines.flatMap Line.data = words.flatMap wordBytes
  le : index ≤ next
  names : lines.filterMap Line.name? = (List.range' index (next - index)).map stringName

theorem WordLines.hexLines (index : Nat) (words : List UInt16) :
    WordLines index words (hexLines words) index where
  data := by
    intro line hline
    obtain ⟨values, -, rfl⟩ := List.mem_map.mp hline
    exact .words values
  bytes := hexLines_data words
  le := Nat.le_refl index
  names := by
    rw [Nat.sub_self, Listing.hexLines, List.filterMap_map]
    exact List.filterMap_eq_nil_iff.mpr fun values _ => rfl

theorem WordLines.append {index middle next : Nat} {words more : List UInt16}
    {lines later : List Line} (h : WordLines index words lines middle)
    (hlater : WordLines middle more later next) :
    WordLines index (words ++ more) (lines ++ later) next where
  data := by
    intro line hline
    exact (List.mem_append.mp hline).elim (h.data line) (hlater.data line)
  bytes := by rw [List.flatMap_append, List.flatMap_append, h.bytes, hlater.bytes]
  le := h.le.trans hlater.le
  names := by
    have hrange : List.range' index (next - index) =
        List.range' index (middle - index) ++ List.range' middle (next - middle) := by
      have hle := h.le
      have hle' := hlater.le
      have hsum : next - index = middle - index + (next - middle) := by omega
      have hmiddle : index + (middle - index) = middle := by omega
      rw [hsum, ← List.range'_append_1, hmiddle]
    rw [List.filterMap_append, h.names, hlater.names, hrange, List.map_append]

theorem WordLines.string (index : Nat) (text : List UInt16) (terminated : Bool)
    (htext : ∀ word ∈ text, isCharWord word = true) :
    WordLines index (text ++ if terminated then [0] else []) [.string index text terminated]
      (index + 1) where
  data := by
    intro line hline
    rw [List.mem_singleton.mp hline]
    exact .string index text terminated htext
  bytes := by
    rw [List.flatMap_singleton, List.flatMap_append]
    cases terminated <;> rfl
  le := Nat.le_succ index
  names := by
    rw [Nat.add_sub_cancel_left]
    rfl

theorem wordLines_spec (index : Nat) (words : List UInt16) :
    WordLines index words (wordLines index words).1 (wordLines index words).2 := by
  fun_induction wordLines index words with
  | case1 index =>
    have hnone : hexLines [] = [] := by
      rw [hexLines, chunks]
      rfl
    exact hnone ▸ WordLines.hexLines index []
  | case2 index word words all plain text rest _ lines next hlines ih =>
    rw [hlines] at ih
    rw [← run_append (word :: words), ← List.append_assoc]
    exact (WordLines.hexLines index (plain ++ text)).append ih
  | case3 index word words all plain text rest _ lines next hlines ih =>
    rw [hlines] at ih
    have htext : ∀ word ∈ text, isCharWord word = true :=
      fun word hword => List.mem_takeWhile_imp hword
    -- words in front of the string, the string with the zero that ends it, and all behind it
    have hrun := WordLines.string index text (dropZero rest).1 htext
    have hwords : word :: words =
        plain ++ ((text ++ if (dropZero rest).1 then [0] else []) ++ (dropZero rest).2) := by
      rw [List.append_assoc, dropZero_append]
      exact (run_append (word :: words)).symm
    rw [hwords]
    exact (WordLines.hexLines index plain).append (hrun.append ih)

/-- The lines of a data block hold its bytes. -/
theorem dataLines_spec (index : Nat) (bytes : List UInt8) :
    ∃ words lines odd, WordLines index words lines (dataLines index bytes).2 ∧
      (dataLines index bytes).1 = lines ++ odd.map Line.byte ∧
      words.flatMap wordBytes ++ odd = bytes ∧ odd.length ≤ 1 := by
  refine ⟨(splitWords bytes).1, _, (splitWords bytes).2.toList, wordLines_spec _ _, rfl,
    splitWords_bytes bytes, ?_⟩
  cases (splitWords bytes).2 with
  | none => exact Nat.zero_le 1
  | some byte => exact Nat.le_refl 1

theorem data_dataLines (index : Nat) (bytes : List UInt8) :
    (dataLines index bytes).1.flatMap Line.data = bytes := by
  obtain ⟨words, lines, odd, hlines, heq, hbytes, -⟩ := dataLines_spec index bytes
  have hodd : (odd.map Line.byte).flatMap Line.data = odd := by
    rw [List.flatMap_map]
    exact List.flatMap_pure_eq_map id odd |>.trans (List.map_id odd)
  rw [heq, List.flatMap_append, hlines.bytes, hodd, hbytes]

/-- The strings of a data block are numbered one after another. -/
theorem names_dataLines (index : Nat) (bytes : List UInt8) :
    index ≤ (dataLines index bytes).2 ∧ (dataLines index bytes).1.filterMap Line.name? =
      (List.range' index ((dataLines index bytes).2 - index)).map stringName := by
  obtain ⟨words, lines, odd, hlines, heq, -, -⟩ := dataLines_spec index bytes
  have hodd : (odd.map Line.byte).filterMap Line.name? = [] := by
    rw [List.filterMap_map]
    exact List.filterMap_eq_nil_iff.mpr fun value _ => rfl
  refine ⟨hlines.le, ?_⟩
  rw [heq, List.filterMap_append, hodd, List.append_nil, hlines.names]

theorem mem_dataLines (index : Nat) (bytes : List UInt8) (line : Line)
    (h : line ∈ (dataLines index bytes).1) : line.IsData ∨ ∃ value, line = .byte value := by
  obtain ⟨words, lines, odd, hlines, heq, -, -⟩ := dataLines_spec index bytes
  rw [heq] at h
  rcases List.mem_append.mp h with h | h
  · exact .inl (hlines.data line h)
  · obtain ⟨value, -, rfl⟩ := List.mem_map.mp h
    exact .inr ⟨value, rfl⟩

end Listing

end WordAsm
