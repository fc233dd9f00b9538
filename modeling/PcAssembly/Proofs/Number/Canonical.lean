import PcAssembly.Proofs.Number.Digits

/-! # The digits of a number

    A number has many texts if zeros may stand in front, and one text if they
    may not: digits with no zero in front of another are the digits of their
    value (`natDigits_eq_iff`). -/

namespace PcAssembly.Number

/-- Digits alone, and one at least. -/
structure AreDigits (s : List Char) : Prop where
  ne_nil : s ≠ []
  isDigit : ∀ c ∈ s, c.isDigit = true

/-- Digits with no zero in front of another. -/
structure AreCanonical (s : List Char) : Prop extends AreDigits s where
  eq_nil_of_zero : ∀ rest, s = '0' :: rest → rest = []

/-- A digit is the digit of its value. -/
theorem digitChar_of_isDigit {c : Char} (h : c.isDigit = true) :
    (c.toNat - '0'.toNat).digitChar = c ∧ c.toNat - '0'.toNat < 10 := by
  simp only [Char.isDigit, Bool.and_eq_true, decide_eq_true_eq, UInt32.le_iff_toNat_le] at h
  change 48 ≤ c.toNat ∧ c.toNat ≤ 57 at h
  have hlt : c.toNat - '0'.toNat < 10 := by
    change c.toNat - 48 < 10
    omega
  refine ⟨Char.toNat_inj.mp ?_, hlt⟩
  rw [Nat.toNat_digitChar_of_lt_ten hlt]
  change 48 + (c.toNat - 48) = c.toNat
  omega

/-- Digits behind those of a number are the digits of what they make of it. -/
theorem natDigits_append {value : Nat} (hvalue : 0 < value) {digits : List Char}
    (hdigits : ∀ c ∈ digits, c.isDigit = true) :
    natDigits value ++ digits = natDigits (Nat.ofDigitChars 10 digits value) := by
  induction digits generalizing value with
  | nil => exact List.append_nil _
  | cons c rest ih =>
      obtain ⟨hc, hrest⟩ := List.forall_mem_cons.mp hdigits
      obtain ⟨hchar, hlt⟩ := digitChar_of_isDigit hc
      have hstep : natDigits value ++ [c] = natDigits (10 * value + (c.toNat - '0'.toNat)) := by
        have happend := Nat.toDigits_append_toDigits (b := 10) (by decide) hvalue hlt
        rwa [Nat.toDigits_of_lt_base hlt, hchar] at happend
      calc natDigits value ++ c :: rest
        _ = natDigits value ++ [c] ++ rest := (List.append_cons ..)
        _ = natDigits (Nat.ofDigitChars 10 (c :: rest) value) := by
          rw [hstep, ih (by omega) hrest, Nat.ofDigitChars_cons]

/-- Only zero is written with a zero in front. -/
theorem eq_zero_of_natDigits_eq_cons {n : Nat} {rest : List Char}
    (h : natDigits n = '0' :: rest) : n = 0 := by
  -- the first digit of `n` is the first one of `n / 10`, down to a single digit
  induction n using Nat.strongRecOn generalizing rest with
  | ind n ih =>
      by_cases hsmall : n < 10
      · have hrest : rest = [] := by
          rw [natDigits, Nat.toDigits_of_lt_base hsmall] at h
          exact (List.cons.inj h).2.symm
        have hvalue : Nat.ofDigitChars 10 (natDigits n) 0 = n := Nat.ofDigitChars_ten_toDigits
        rw [h, hrest] at hvalue
        exact hvalue.symm
      · rw [natDigits, Nat.toDigits_of_base_le (by decide) (Nat.not_lt.mp hsmall)] at h
        rcases List.append_eq_cons_iff.mp h with ⟨hnil, -⟩ | ⟨before, hbefore, -⟩
        · exact absurd hnil Nat.toDigits_ne_nil
        · have hzero := ih (n / 10) (by omega) hbefore
          omega

/-- **Canonical digits.** Digits with no zero in front of another are the
    digits of their value, and those of a number are of that form. -/
theorem natDigits_eq_iff {n : Nat} {s : List Char} :
    natDigits n = s ↔ AreCanonical s ∧ Nat.ofDigitChars 10 s 0 = n := by
  constructor
  · rintro rfl
    refine ⟨⟨⟨Nat.toDigits_ne_nil, fun _ => isDigit_of_mem_natDigits⟩, fun rest h => ?_⟩,
      Nat.ofDigitChars_ten_toDigits⟩
    rw [eq_zero_of_natDigits_eq_cons h] at h
    exact (List.cons.inj h).2.symm
  · rintro ⟨hcanonical, rfl⟩
    obtain ⟨c, rest, rfl⟩ := List.exists_cons_of_ne_nil hcanonical.ne_nil
    obtain ⟨hc, hrest⟩ := List.forall_mem_cons.mp hcanonical.isDigit
    obtain ⟨hchar, hlt⟩ := digitChar_of_isDigit hc
    have hone : natDigits (c.toNat - '0'.toNat) = [c] := by
      rw [natDigits, Nat.toDigits_of_lt_base hlt, hchar]
    rw [Nat.ofDigitChars_cons, Nat.mul_zero, Nat.zero_add]
    -- `natDigits_append` needs a first digit that is not zero; a zero stands alone
    by_cases hvalue : 0 < c.toNat - '0'.toNat
    · rw [← natDigits_append hvalue hrest, hone, List.singleton_append]
    · have hvalue := Nat.eq_zero_of_not_pos hvalue
      have hc : c = '0' := by
        rw [← hchar, hvalue]
        rfl
      subst hc
      rw [hcanonical.eq_nil_of_zero rest rfl]
      rfl

end PcAssembly.Number
