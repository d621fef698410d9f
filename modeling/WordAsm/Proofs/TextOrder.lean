import Mathlib.Data.List.Sort
import Mathlib.Data.String.Basic
import WordAsm.Sorted
import WordAsm.Text.Utf8

/-! Lists and texts in order. Sorting by a total order puts every element before all that it may
precede and is stable, and texts stand in the order of their characters exactly when their bytes do:
a character with a greater code has a greater lead byte, or an equal one and greater bytes behind
it. -/

namespace WordAsm

section

variable {α : Type} (le : α → α → Bool)

theorem insertBy_eq_orderedInsert (a : α) (list : List α) :
    insertBy le a list = list.orderedInsert (fun a b => le a b = true) a := by
  induction list with
  | nil => rfl
  | cons b rest ih => rw [insertBy, List.orderedInsert, ih]

theorem sortBy_eq_insertionSort (list : List α) :
    sortBy le list = list.insertionSort (fun a b => le a b = true) := by
  induction list with
  | nil => rfl
  | cons a rest ih => rw [sortBy, ih, insertBy_eq_orderedInsert, List.insertionSort_cons]

theorem mem_sortBy (a : α) (list : List α) : a ∈ sortBy le list ↔ a ∈ list := by
  rw [sortBy_eq_insertionSort, List.mem_insertionSort]

/-- Inserting into a sorted list an element that comes before all others keeps the order of those
that may precede one another both ways. -/
theorem insertBy_stable (htotal : ∀ a b, le a b = true ∨ le b a = true)
    (htrans : ∀ a b c, le a b = true → le b c = true → le a c = true) (R : α → α → Prop) (a : α)
    (list : List α) (ha : ∀ b ∈ list, R a b)
    (h : list.Pairwise fun a b => le a b = true ∧ (le b a = true → R a b)) :
    (insertBy le a list).Pairwise fun a b => le a b = true ∧ (le b a = true → R a b) := by
  induction list with
  | nil => exact List.pairwise_singleton _ a
  | cons b rest ih =>
    obtain ⟨hb, hrest⟩ := List.pairwise_cons.mp h
    rw [insertBy]
    split
    · rename_i hle
      refine List.pairwise_cons.mpr ⟨?_, h⟩
      intro c hc
      refine ⟨?_, fun _ => ha c hc⟩
      rcases List.mem_cons.mp hc with rfl | hc
      · exact hle
      · exact htrans a b c hle (hb c hc).1
    · rename_i hle
      refine List.pairwise_cons.mpr
        ⟨?_, ih (fun c hc => ha c (List.mem_cons_of_mem b hc)) hrest⟩
      intro c hc
      rw [insertBy_eq_orderedInsert, List.mem_orderedInsert] at hc
      rcases hc with rfl | hc
      · -- the new element may not precede the first one, so it has to come behind it
        exact ⟨(htotal c b).resolve_left hle, fun h => absurd h hle⟩
      · exact hb c hc

/-- By a total order every element is put before all that it may precede, and elements that may
precede one another both ways are left in the order that they came in. -/
theorem sortBy_stable (htotal : ∀ a b, le a b = true ∨ le b a = true)
    (htrans : ∀ a b c, le a b = true → le b c = true → le a c = true) (R : α → α → Prop)
    (list : List α) (h : list.Pairwise R) :
    (sortBy le list).Pairwise fun a b => le a b = true ∧ (le b a = true → R a b) := by
  induction list with
  | nil => exact List.Pairwise.nil
  | cons a rest ih =>
    obtain ⟨ha, hrest⟩ := List.pairwise_cons.mp h
    apply insertBy_stable le htotal htrans R a _ _ (ih hrest)
    intro b hb
    exact ha b ((mem_sortBy le b rest).mp hb)

end

theorem sortTexts_pairwise (texts : List String) :
    (sortTexts texts).Pairwise fun a b => a ≤ b := by
  have htotal (a b : String) : decide (a ≤ b) = true ∨ decide (b ≤ a) = true := by
    simpa using le_total a b
  have htrans (a b c : String) (hab : decide (a ≤ b) = true) (hbc : decide (b ≤ c) = true) :
      decide (a ≤ c) = true := by
    simp only [decide_eq_true_eq] at hab hbc ⊢
    exact hab.trans hbc
  have hsorted := sortBy_stable _ htotal htrans (fun _ _ => True) texts
    (List.pairwise_of_forall fun _ _ => trivial)
  exact hsorted.imp fun h => of_decide_eq_true h.1

/-- The order that texts come in does not matter once they are sorted. -/
theorem sortTexts_eq_of_perm {texts texts' : List String} (h : texts.Perm texts') :
    sortTexts texts = sortTexts texts' := by
  have hperm (texts : List String) : (sortTexts texts).Perm texts := by
    rw [sortTexts, sortBy_eq_insertionSort]
    exact List.perm_insertionSort _ texts
  apply List.Perm.eq_of_pairwise _ (sortTexts_pairwise texts) (sortTexts_pairwise texts')
  · exact (hperm texts).trans (h.trans (hperm texts').symm)
  · intro a b _ _ hab hba
    exact le_antisymm hab hba

namespace Text

theorem ofNat_lt_iff (m n : Nat) (hm : m < 256) (hn : n < 256) :
    UInt8.ofNat m < UInt8.ofNat n ↔ m < n := by
  rw [UInt8.lt_iff_toNat_lt, UInt8.toNat_ofNat_of_lt' hm, UInt8.toNat_ofNat_of_lt' hn]

/-- How many bytes follow the lead byte of the character with a code. -/
def continuations (code : Nat) : Nat :=
  if code ≤ 0x7f then 0 else if code ≤ 0x7ff then 1 else if code ≤ 0xffff then 2 else 3

/-- The lead byte of the character with a code: a mark for the number of bytes that follow, and the
bits of the code that those do not hold. -/
def leadByte (code : Nat) : Nat :=
  [0, 0xc0, 0xe0, 0xf0].getD (continuations code) 0 + code / 64 ^ continuations code

/-- The bytes that hold the `6 * count` low bits of a code. -/
def followBytes : (count code : Nat) → List UInt8
  | 0, _ => []
  | count + 1, code => UInt8.ofNat (code / 64 ^ count % 64 + 0x80) :: followBytes count code

/-- The four ranges of codes. -/
theorem continuations_cases (code : Nat) (h : code < 0x110000) :
    (code < 0x80 ∧ continuations code = 0 ∧ leadByte code = code) ∨
    (0x80 ≤ code ∧ code < 0x800 ∧ continuations code = 1 ∧ leadByte code = code / 64 + 0xc0) ∨
    (0x800 ≤ code ∧ code < 0x10000 ∧ continuations code = 2 ∧
      leadByte code = code / 4096 + 0xe0) ∨
    (0x10000 ≤ code ∧ code < 0x110000 ∧ continuations code = 3 ∧
      leadByte code = code / 262144 + 0xf0) := by
  rw [leadByte, continuations]
  split_ifs with h1 h2 h3
  · exact .inl ⟨by omega, rfl, by simp⟩
  · exact .inr (.inl ⟨by omega, by omega, rfl, Nat.add_comm _ _⟩)
  · exact .inr (.inr (.inl ⟨by omega, by omega, rfl, Nat.add_comm _ _⟩))
  · exact .inr (.inr (.inr ⟨by omega, h, rfl, Nat.add_comm _ _⟩))

theorem toNat_lt_of_char (c : Char) : c.val.toNat < 0x110000 := by
  have hvalid := c.valid
  rw [UInt32.isValidChar, Nat.isValidChar] at hvalid
  omega

/-- The bytes of a character. -/
theorem utf8EncodeChar_eq (c : Char) :
    String.utf8EncodeChar c = UInt8.ofNat (leadByte c.val.toNat) ::
      followBytes (continuations c.val.toNat) c.val.toNat := by
  have hvalid := toNat_lt_of_char c
  dsimp only [String.utf8EncodeChar]
  generalize c.val.toNat = code at *
  obtain ⟨h, hcount, hlead⟩ | ⟨h, h', hcount, hlead⟩ | ⟨h, h', hcount, hlead⟩ |
    ⟨h, h', hcount, hlead⟩ := continuations_cases code hvalid
  · rw [if_pos (by omega), hcount, hlead]
    rfl
  · have hhigh : code / 64 % 32 = code / 64 := by omega
    rw [if_neg (by omega), if_pos (by omega), hcount, hlead, hhigh]
    simp [followBytes]
  · have hhigh : code / 4096 % 16 = code / 4096 := by omega
    rw [if_neg (by omega), if_neg (by omega), if_pos (by omega), hcount, hlead, hhigh]
    simp [followBytes]
  · have hhigh : code / 262144 % 8 = code / 262144 := by omega
    rw [if_neg (by omega), if_neg (by omega), if_neg (by omega), hcount, hlead, hhigh]
    simp [followBytes]

/-- A greater code has a greater lead byte, or the same and greater low bits behind it. -/
theorem leadByte_lt_or (m n : Nat) (h : m < n) (hn : n < 0x110000) :
    leadByte m < leadByte n ∨ leadByte m = leadByte n ∧ continuations m = continuations n ∧
      m % 64 ^ continuations m < n % 64 ^ continuations m := by
  by_cases hlt : leadByte m < leadByte n
  · exact .inl hlt
  · -- with a lead byte as great the smaller code is in the same range and has the same high bits
    have hcount : continuations m = continuations n := by
      have hm := continuations_cases m (by omega)
      have hn := continuations_cases n hn
      omega
    have hle : m / 64 ^ continuations m ≤ n / 64 ^ continuations m := Nat.div_le_div_right h.le
    rw [leadByte, leadByte, ← hcount] at hlt
    have hhigh : m / 64 ^ continuations m = n / 64 ^ continuations m := by omega
    have hm := Nat.div_add_mod m (64 ^ continuations m)
    have hn := Nat.div_add_mod n (64 ^ continuations m)
    rw [hhigh] at hm
    refine .inr ⟨?_, hcount, by omega⟩
    rw [leadByte, leadByte, ← hcount, hhigh]

theorem leadByte_lt (code : Nat) (h : code < 0x110000) : leadByte code < 256 := by
  have hcases := continuations_cases code h
  omega

/-- Bytes that hold greater low bits are greater. -/
theorem followBytes_append_lt (count m n : Nat) (h : m % 64 ^ count < n % 64 ^ count)
    (bytes bytes' : List UInt8) :
    followBytes count m ++ bytes < followBytes count n ++ bytes' := by
  induction count with
  | zero =>
    rw [Nat.pow_zero, Nat.mod_one, Nat.mod_one] at h
    omega
  | succ count ih =>
    rw [Nat.pow_succ, Nat.mod_mul, Nat.mod_mul] at h
    have hm : m % 64 ^ count < 64 ^ count := Nat.mod_lt _ (Nat.pow_pos (by decide))
    have hn : n % 64 ^ count < 64 ^ count := Nat.mod_lt _ (Nat.pow_pos (by decide))
    have hdigit : m / 64 ^ count % 64 < 64 ∧ n / 64 ^ count % 64 < 64 := by omega
    rw [followBytes, followBytes, List.cons_append, List.cons_append, List.cons_lt_cons_iff,
      ofNat_lt_iff _ _ (by omega) (by omega)]
    -- the first digits decide, unless they are the same
    rcases Nat.lt_trichotomy (m / 64 ^ count % 64) (n / 64 ^ count % 64) with hlt | heq | hgt
    · exact .inl (by omega)
    · rw [heq] at h ⊢
      exact .inr ⟨rfl, ih (by omega)⟩
    · have hle := Nat.mul_le_mul_left (64 ^ count) hgt
      rw [Nat.mul_succ] at hle
      omega

/-- The bytes of a greater character are greater, whatever follows either of them. -/
theorem utf8EncodeChar_append_lt (c d : Char) (h : c < d) (bytes bytes' : List UInt8) :
    String.utf8EncodeChar c ++ bytes < String.utf8EncodeChar d ++ bytes' := by
  have hlt : c.val.toNat < d.val.toNat := h
  have hc := leadByte_lt _ (toNat_lt_of_char c)
  have hd := leadByte_lt _ (toNat_lt_of_char d)
  rw [utf8EncodeChar_eq, utf8EncodeChar_eq, List.cons_append, List.cons_append,
    List.cons_lt_cons_iff, ofNat_lt_iff _ _ hc hd]
  obtain hlt | ⟨hlead, hcount, hlow⟩ := leadByte_lt_or _ _ hlt (toNat_lt_of_char d)
  · exact .inl hlt
  · rw [hlead, ← hcount]
    exact .inr ⟨rfl, followBytes_append_lt _ _ _ hlow bytes bytes'⟩

theorem encode_lt_of_lt {chars chars' : List Char} (h : chars < chars') :
    encode chars < encode chars' := by
  induction h with
  | @nil d rest =>
    rw [encode.eq_def (d :: rest), List.flatMap_cons, utf8EncodeChar_eq]
    exact List.nil_lt_cons _ _
  | rel hlt => exact utf8EncodeChar_append_lt _ _ hlt _ _
  | cons _ ih => exact List.append_left_lt ih

/-- Texts are in the order of their bytes. -/
theorem encode_lt_iff (a b : String) : encode a.toList < encode b.toList ↔ a < b := by
  rw [String.lt_iff_toList_lt]
  refine ⟨?_, encode_lt_of_lt⟩
  -- the order of texts is total, so it is enough that encoding keeps it
  intro h
  by_contra hnot
  rcases List.le_iff_lt_or_eq.mp (List.not_lt.mp hnot) with hlt | heq
  · exact List.lt_asymm h (encode_lt_of_lt hlt)
  · rw [heq] at h
    exact List.lt_irrefl _ h

theorem encode_le_iff (a b : String) : encode a.toList ≤ encode b.toList ↔ a ≤ b := by
  rw [← List.not_lt, encode_lt_iff, not_lt]

end Text

end WordAsm
