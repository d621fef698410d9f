import WordAsm.Token

/-! Written numerals. Digits are read back as the number they were written for, zeros in front of
them do not matter, and different numbers have different digits. -/

namespace WordAsm.Text

theorem digitValue?_digitChar (d : Nat) (h : d < 36) : digitValue? (digitChar d) = some d := by
  have hall : ∀ n : Fin 36, digitValue? (digitChar n) = some n.val := by decide
  exact hall ⟨d, h⟩

theorem digitChar_injective (d d' : Nat) (hd : d < 36) (hd' : d' < 36)
    (h : digitChar d = digitChar d') : d = d' := by
  have hv := congrArg digitValue? h
  rw [digitValue?_digitChar d hd, digitValue?_digitChar d' hd'] at hv
  exact Option.some.inj hv

theorem digits_of_lt (base n : Nat) (h : n < base) : digits base n = [digitChar n] := by
  rw [digits, if_neg (by omega)]

theorem digits_of_le (base n : Nat) (hbase : 2 ≤ base) (h : base ≤ n) :
    digits base n = digits base (n / base) ++ [digitChar (n % base)] := by
  rw [digits, if_pos ⟨hbase, h⟩]

theorem digits_ne_nil (base n : Nat) : digits base n ≠ [] := by
  rw [digits]
  split
  · simp
  · simp

/-- What holds of the character of every digit holds of all digits of a number. -/
theorem forall_mem_digits (P : Char → Prop) (base n : Nat) (hbase : 2 ≤ base)
    (hP : ∀ d < base, P (digitChar d)) : ∀ c ∈ digits base n, P c := by
  induction n using Nat.strongRecOn with
  | ind n ih =>
    by_cases h : n < base
    · rw [digits_of_lt base n h]
      intro c hc
      rw [List.mem_singleton.mp hc]
      exact hP n h
    · have hdiv : n / base < n := Nat.div_lt_self (by omega) hbase
      rw [digits_of_le base n hbase (by omega)]
      intro c hc
      rcases List.mem_append.mp hc with hc | hc
      · exact ih _ hdiv c hc
      · rw [List.mem_singleton.mp hc]
        exact hP _ (Nat.mod_lt n (by omega))

theorem readDigits_append (base value : Nat) (front rest : List Char) :
    readDigits base value (front ++ rest) =
      (readDigits base value front).bind fun value => readDigits base value rest := by
  induction front generalizing value with
  | nil => rfl
  | cons c front ih =>
    rw [List.cons_append, readDigits, readDigits]
    cases digitValue? c with
    | none => rfl
    | some d =>
      dsimp only
      split
      · rfl
      · split
        · rfl
        · exact ih _

theorem readDigits_digitChar (base value d : Nat) (hbase : base ≤ 36) (hd : d < base)
    (h : value * base + d < Word.modulus) :
    readDigits base value [digitChar d] = .ok (value * base + d) := by
  rw [readDigits, digitValue?_digitChar d (by omega)]
  dsimp only
  rw [if_neg (by omega), if_neg (by omega)]
  rfl

/-- The digits of a word are read back as the word. -/
theorem readDigits_digits (base n : Nat) (hbase : 2 ≤ base) (hbase' : base ≤ 36)
    (hn : n < Word.modulus) : readDigits base 0 (digits base n) = .ok n := by
  induction n using Nat.strongRecOn with
  | ind n ih =>
    by_cases h : n < base
    · rw [digits_of_lt base n h]
      simpa using readDigits_digitChar base 0 n hbase' h (by omega)
    · have hdiv : n / base < n := Nat.div_lt_self (by omega) hbase
      have hsum : n / base * base + n % base = n := Nat.div_add_mod' n base
      rw [digits_of_le base n hbase (by omega), readDigits_append, ih _ hdiv (by omega)]
      change readDigits base (n / base) [digitChar (n % base)] = _
      rw [readDigits_digitChar base _ _ hbase' (Nat.mod_lt n (by omega)) (by omega), hsum]

theorem readDigits_zeros (base count : Nat) (text : List Char) (hbase : 0 < base) :
    readDigits base 0 (List.replicate count '0' ++ text) = readDigits base 0 text := by
  induction count with
  | zero => rfl
  | succ count ih =>
    rw [List.replicate_succ, List.cons_append, readDigits]
    change (if base ≤ 0 then _ else if Word.modulus ≤ 0 * base + 0 then _ else _) = _
    rw [if_neg (by omega), if_neg (by rw [Nat.zero_mul]; decide), Nat.zero_mul]
    exact ih

theorem readDigits_map (f : Char → Char) (base value : Nat) (text : List Char)
    (h : ∀ c ∈ text, digitValue? (f c) = digitValue? c) :
    readDigits base value (text.map f) = readDigits base value text := by
  induction text generalizing value with
  | nil => rfl
  | cons c text ih =>
    rw [List.map_cons, readDigits, readDigits, h c List.mem_cons_self]
    simp only [ih _ fun other hother => h other (List.mem_cons_of_mem c hother)]

/-- Capital digits are read back as the number as well. -/
theorem readDigits_capitalHex (width n : Nat) (hn : n < Word.modulus) :
    readDigits 16 0 (capitalHex width n).toList = .ok n := by
  have hupper : ∀ c ∈ List.leftpad width '0' (digits 16 n),
      digitValue? c.toUpper = digitValue? c := by
    intro c hc
    rcases List.mem_append.mp hc with hc | hc
    · rw [(List.mem_replicate.mp hc).2]
      rfl
    · exact forall_mem_digits (fun c => digitValue? c.toUpper = digitValue? c) 16 n (by decide)
        (by decide) c hc
  rw [capitalHex, String.toList_ofList, readDigits_map Char.toUpper 16 0 _ hupper, List.leftpad,
    readDigits_zeros 16 _ _ (by decide), readDigits_digits 16 n (by decide) (by decide) hn]

theorem digits_injective (base n m : Nat) (hbase : 2 ≤ base) (hbase' : base ≤ 36)
    (h : digits base n = digits base m) : n = m := by
  induction n using Nat.strongRecOn generalizing m with
  | ind n ih =>
    -- a number of one digit differs from all with more digits, and else last digits can be dropped
    have hne := digits_ne_nil base (n / base)
    have hne' := digits_ne_nil base (m / base)
    by_cases hn : n < base
    · by_cases hm : m < base
      · rw [digits_of_lt base n hn, digits_of_lt base m hm] at h
        exact digitChar_injective n m (by omega) (by omega) (List.singleton_inj.mp h)
      · rw [digits_of_lt base n hn, digits_of_le base m hbase (by omega)] at h
        exact absurd (List.append_eq_singleton_iff.mp h.symm) (by simp [hne'])
    · by_cases hm : m < base
      · rw [digits_of_le base n hbase (by omega), digits_of_lt base m hm] at h
        exact absurd (List.append_eq_singleton_iff.mp h) (by simp [hne])
      · rw [digits_of_le base n hbase (by omega), digits_of_le base m hbase (by omega)] at h
        obtain ⟨hfront, hlast⟩ := List.append_inj' h rfl
        have hdiv : n / base = m / base :=
          ih _ (Nat.div_lt_self (by omega) hbase) _ hfront
        have hmod : n % base = m % base :=
          digitChar_injective _ _ (Nat.lt_of_lt_of_le (Nat.mod_lt n (by omega)) hbase')
            (Nat.lt_of_lt_of_le (Nat.mod_lt m (by omega)) hbase') (List.singleton_inj.mp hlast)
        rw [← Nat.div_add_mod n base, ← Nat.div_add_mod m base, hdiv, hmod]

end WordAsm.Text

namespace WordAsm.Token

open WordAsm.Text

/-- A number in base ten has the value that it was made for. -/
theorem value_ofValue (value : UInt64) (pos : Position) :
    (ofValue value pos).value = .ok value := by
  have hlt : value.toNat < Word.modulus := value.toNat_lt
  have hread : readNumeral 10 (digits 10 value.toNat) = .ok value := by
    have hne : (digits 10 value.toNat).isEmpty = false := by
      simpa using digits_ne_nil 10 value.toNat
    rw [readNumeral, hne, if_neg (by decide), if_pos (by decide)]
    change (readDigits 10 0 (digits 10 value.toNat)).map UInt64.ofNat = _
    rw [readDigits_digits 10 value.toNat (by decide) (by decide) hlt]
    exact congrArg Except.ok UInt64.ofNat_toNat
  rw [Token.value, ofValue, if_pos rfl]
  dsimp only
  rw [decimal, String.toList_ofList, hread]

end WordAsm.Token
