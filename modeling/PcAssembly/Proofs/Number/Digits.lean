import PcAssembly.Number.Integer

/-! # Integers survive being written

    An integer that is written in digits is read back as the same integer, and
    its text is made of digits and at most a hyphen in front: no separator, no
    blank and no other sign. -/

namespace PcAssembly.Number

theorem isDigit_of_mem_natDigits {n : Nat} {c : Char} (h : c ∈ natDigits n) : c.isDigit = true :=
  Nat.isDigit_of_mem_toDigits (by decide) (by decide) h

theorem natOfDigits?_natDigits (n : Nat) : natOfDigits? (natDigits n) = some n := by
  have hdigits : (natDigits n).all Char.isDigit = true :=
    List.all_eq_true.mpr fun _ => isDigit_of_mem_natDigits
  have hsome : (natDigits n).isEmpty = false :=
    List.isEmpty_eq_false_iff.mpr Nat.toDigits_ne_nil
  rw [natOfDigits?, hdigits, hsome]
  exact congrArg some (Nat.ofDigitChars_ten_toDigits)

/-- Digits are read without a sign. -/
theorem signed?_of_isDigit {magnitude? : List Char → Option Nat} {s : List Char}
    (h : ∀ c ∈ s, c.isDigit = true) : signed? magnitude? s = (magnitude? s).map Int.ofNat := by
  unfold signed?
  split
  · exact nomatch h '-' List.mem_cons_self
  · exact nomatch h '+' List.mem_cons_self
  · rfl

/-- **An integer is read back from its digits.** -/
theorem intOfText?_intDigits (i : Int) : intOfText? (intDigits i) = some i := by
  rw [intOfText?, intDigits]
  split
  · rename_i hneg
    rw [signed?, natOfDigits?_natDigits]
    exact congrArg some (Int.eq_neg_natAbs_of_nonpos (Int.le_of_lt hneg)).symm
  · rename_i hnonneg
    rw [signed?_of_isDigit fun _ => isDigit_of_mem_natDigits, natOfDigits?_natDigits,
      Option.map_some]
    exact congrArg some (Int.natAbs_of_nonneg (Int.not_lt.mp hnonneg))

theorem int64OfText?_intDigits (x : Int64) : int64OfText? (intDigits x.toInt) = some x := by
  rw [int64OfText?, intOfText?_intDigits, Option.bind_some, int64?_toInt]

/-- What is neither a hyphen nor a digit does not occur. -/
theorem not_mem_intDigits {c : Char} (hhyphen : c ≠ '-') (hdigit : c.isDigit = false) (i : Int) :
    c ∉ intDigits i := by
  have hdigits : c ∉ natDigits i.natAbs := fun hmem =>
    nomatch hdigit.symm.trans (isDigit_of_mem_natDigits hmem)
  rw [intDigits]
  split
  · exact List.not_mem_cons_of_ne_of_not_mem hhyphen hdigits
  · exact hdigits

end PcAssembly.Number
