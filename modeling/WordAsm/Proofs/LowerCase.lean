import WordAsm.Text.Lower

/-! Lower case is final: a text in lower case is its own lower case. No run of capital letters
reaches the lower case of another, which is a check on pairs of runs and not on characters. -/

namespace WordAsm.Text

namespace CaseRun

/-- The lower case of the first letter of a run. -/
def low (run : CaseRun) : Nat :=
  (run.first + run.shift).toNat

/-- The lower case of the last letter of a run. -/
def high (run : CaseRun) : Nat :=
  (run.last + run.shift).toNat

/-- The lower case of a run consists of characters that lie beyond the ASCII block or are small
letters in it. -/
def settled (run : CaseRun) : Bool :=
  0 ≤ run.first + run.shift && run.high < 0x110000 && (run.high < 0xd800 || 0xe000 ≤ run.low)
    && (0x80 ≤ run.low || 0x61 ≤ run.low && run.high ≤ 0x7a)

/-- No lower case of the first run is a letter of the second: they lie apart, or the second takes
every second code point and the lower case of the first stands between its letters. -/
def apart (run other : CaseRun) : Bool :=
  Nat.blt other.last run.low || (Nat.blt run.high other.first
    || (run.step == 2 || run.first == run.last) && other.step == 2
      && (run.low + other.first) % 2 == 1)

/-- The lower case of a letter of a run is between those of its ends. -/
theorem low_le_of_covers (run : CaseRun) (n : Nat) (h : run.covers n = true) :
    run.low ≤ (n + run.shift).toNat ∧ (n + run.shift).toNat ≤ run.high := by
  simp only [covers, Bool.and_eq_true, decide_eq_true_eq] at h
  simp only [low, high]
  omega

theorem not_covers_of_apart (run other : CaseRun) (n : Nat) (h : run.covers n = true)
    (hsettled : run.settled = true) (hapart : run.apart other = true) :
    other.covers (n + run.shift).toNat = false := by
  rw [Bool.eq_false_iff]
  intro hcovers
  obtain ⟨hlow, hhigh⟩ := run.low_le_of_covers n h
  simp only [settled, low, Bool.and_eq_true, decide_eq_true_eq] at hsettled
  simp only [covers, Bool.and_eq_true, decide_eq_true_eq, beq_iff_eq] at h hcovers
  simp only [apart, Bool.or_eq_true, Bool.and_eq_true, Nat.blt_eq, beq_iff_eq] at hapart
  rcases hapart with hbefore | hbehind | ⟨⟨hstep, hother⟩, hodd⟩
  · omega
  · omega
  · -- both runs hold every second code point, and the shift takes one between the other's letters
    rw [hother] at hcovers
    simp only [low] at hodd
    rcases hstep with hstep | hsingle
    · rw [hstep] at h
      omega
    · omega

end CaseRun

theorem caseRuns_settled : caseRuns.all CaseRun.settled = true := by
  decide +kernel

theorem caseRuns_apart : (caseRuns.all fun run => caseRuns.all run.apart) = true := by
  decide +kernel

/-- Beyond the ASCII block the first run that covers a character decides. -/
theorem lowerChar_of_le (c : Char) (h : 0x80 ≤ c.toNat) :
    lowerChar c = (caseRuns.find? (·.covers c.toNat)).elim c
      fun run => Char.ofNat (c.toNat + run.shift).toNat := by
  rw [lowerChar, if_neg (by omega)]
  cases caseRuns.find? (·.covers c.toNat) with
  | none => rfl
  | some run => rfl

theorem lowerChar_of_small (n : Nat) (h : 0x61 ≤ n ∧ n ≤ 0x7a) :
    lowerChar (Char.ofNat n) = Char.ofNat n := by
  have hall : ∀ k : Fin 26, lowerChar (Char.ofNat (0x61 + k)) = Char.ofNat (0x61 + k) := by
    decide +kernel
  have hk := hall ⟨n - 0x61, by omega⟩
  simpa only [show 0x61 + (n - 0x61) = n by omega] using hk

theorem toNat_ofNat (n : Nat) (h : n.isValidChar) : (Char.ofNat n).toNat = n := by
  rw [Char.ofNat, dif_pos h]
  rfl

/-- A letter that a run has changed is not changed again. -/
theorem lowerChar_of_covers (run : CaseRun) (hrun : run ∈ caseRuns) (n : Nat)
    (hcovers : run.covers n = true) :
    lowerChar (Char.ofNat (n + run.shift).toNat) = Char.ofNat (n + run.shift).toNat := by
  have hsettled : run.settled = true := List.all_eq_true.mp caseRuns_settled run hrun
  have hapart := List.all_eq_true.mp (List.all_eq_true.mp caseRuns_apart run hrun)
  obtain ⟨hlow, hhigh⟩ := run.low_le_of_covers n hcovers
  have hbounds := hsettled
  simp only [CaseRun.settled, Bool.or_eq_true, Bool.and_eq_true, decide_eq_true_eq] at hbounds
  by_cases hsmall : (n + run.shift).toNat < 0x80
  · exact lowerChar_of_small _ (by omega)
  · have hvalid : ((n + run.shift).toNat).isValidChar := by
      unfold Nat.isValidChar
      omega
    -- no run has a letter where this one leads, so nothing is found for it
    have hnone : caseRuns.find? (·.covers (n + run.shift).toNat) = none := by
      rw [List.find?_eq_none]
      intro other hother
      rw [run.not_covers_of_apart other n hcovers hsettled (hapart other hother)]
      exact Bool.false_ne_true
    rw [lowerChar_of_le _ (by rw [toNat_ofNat _ hvalid]; omega), toNat_ofNat _ hvalid, hnone]
    rfl

/-- A character in lower case stays as it is. -/
theorem lowerChar_lowerChar (c : Char) : lowerChar (lowerChar c) = lowerChar c := by
  -- the ASCII block is checked letter by letter, what is beyond it run by run
  by_cases hascii : c.toNat < 0x80
  · have hall : ∀ k : Fin 128, lowerChar (lowerChar (Char.ofNat k)) = lowerChar (Char.ofNat k) := by
      decide +kernel
    simpa only [Char.ofNat_toNat] using hall ⟨c.toNat, hascii⟩
  · have hlower := lowerChar_of_le c (by omega)
    cases hrun : caseRuns.find? (·.covers c.toNat) with
    | none =>
      rw [hrun] at hlower
      rw [hlower]
      exact hlower
    | some run =>
      rw [hrun] at hlower
      rw [hlower]
      exact lowerChar_of_covers run (List.mem_of_find?_eq_some hrun) c.toNat
        (List.find?_some (p := fun run : CaseRun => run.covers c.toNat) hrun)

/-- A text in lower case stays as it is. -/
theorem lower_lower (text : String) : lower (lower text) = lower text := by
  rw [lower, lower, String.toList_ofList, List.map_map]
  congr 2
  funext c
  exact lowerChar_lowerChar c

end WordAsm.Text
