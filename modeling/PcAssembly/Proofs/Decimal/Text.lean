import PcAssembly.Decimal.Reader
import PcAssembly.Proofs.Number.Digits

/-! # Amounts survive being written

    An amount is written with all places of its scale.  Reading it again takes
    every digit in, since no part of the text has a larger value than the whole;
    so neither cutting nor rounding takes place, and the amount is the same, its
    scale included. -/

namespace PcAssembly

namespace Number

/-- The value of digits grows with every digit. -/
theorem le_ofDigitChars (digits : List Char) (value : Nat) :
    value ≤ Nat.ofDigitChars 10 digits value := by
  induction digits generalizing value with
  | nil => exact Nat.le_refl value
  | cons c rest ih =>
      rw [Nat.ofDigitChars_cons]
      have hstep := ih (10 * value + (c.toNat - '0'.toNat))
      omega

end Number

namespace Binary64

open PcAssembly.Number

/-- The fixed form is a whole part with a digit at least, a point, and as many
    digits as there are places; without the point it is the number of units. -/
theorem exists_fixedDigits_eq (places units : Nat) :
    ∃ whole fraction, fixedDigits places units = whole ++ '.' :: fraction ∧
      whole ≠ [] ∧ fraction.length = places ∧
      (∀ c ∈ whole ++ fraction, c.isDigit = true) ∧
      Nat.ofDigitChars 10 (whole ++ fraction) 0 = units := by
  have hpadded : places + 1 ≤
      (zeros (places + 1 - (natDigits units).length) ++ natDigits units).length := by
    rw [List.length_append, zeros, List.length_replicate]
    omega
  refine ⟨_, _, rfl, ?_, ?_, ?_, ?_⟩
  · intro hnil
    have hlength := congrArg List.length hnil
    rw [List.length_take, List.length_nil] at hlength
    omega
  · rw [List.length_drop]
    omega
  · rw [List.take_append_drop]
    intro c hc
    rcases List.mem_append.mp hc with hzero | hdigit
    · rw [List.eq_of_mem_replicate hzero]
      rfl
    · exact isDigit_of_mem_natDigits hdigit
  · rw [List.take_append_drop, Nat.ofDigitChars_append, zeros, Nat.ofDigitChars_replicate_zero,
      Nat.mul_zero]
    exact Nat.ofDigitChars_ten_toDigits

end Binary64

namespace Decimal

open PcAssembly.Number

theorem digit?_of_isDigit {c : Char} (h : c.isDigit = true) :
    digit? c = some (c.toNat - '0'.toNat) :=
  if_pos h

private theorem ne_of_isDigit {c d : Char} (hc : c.isDigit = true) (hd : d.isDigit = false) :
    c ≠ d := by
  rintro rfl
  exact nomatch hc.symm.trans hd

/-- Digits in front of the point are taken in, as long as there is room. -/
theorem readWhole?_append {digits : List Char} (hdigits : ∀ c ∈ digits, c.isDigit = true)
    (started : Bool) (value : Nat) (rest : List Char)
    (hroom : Nat.ofDigitChars 10 digits value < coefficientBound) :
    readWhole? started value (digits ++ rest) =
      readWhole? (started || !digits.isEmpty) (Nat.ofDigitChars 10 digits value) rest := by
  induction digits generalizing started value with
  | nil => simp [Nat.ofDigitChars_nil]
  | cons c digits ih =>
      obtain ⟨hc, hdigits⟩ := List.forall_mem_cons.mp hdigits
      rw [Nat.ofDigitChars_cons] at hroom ⊢
      have hnext := Nat.lt_of_le_of_lt (le_ofDigitChars digits _) hroom
      rw [List.cons_append, readWhole?, if_neg (ne_of_isDigit hc rfl),
        if_neg (ne_of_isDigit hc rfl), digit?_of_isDigit hc]
      simp only [Option.bind_eq_bind, Option.bind_some]
      rw [if_pos hnext, ih hdigits true _ hroom]
      simp

/-- Digits behind the point are taken in, as long as there is room. -/
theorem readFraction?_digits {digits : List Char} (hdigits : ∀ c ∈ digits, c.isDigit = true)
    (value scale : Nat) (hplaces : scale + digits.length ≤ maxScale)
    (hroom : Nat.ofDigitChars 10 digits value < coefficientBound) :
    readFraction? true ⟨value, scale⟩ digits =
      some ⟨Nat.ofDigitChars 10 digits value, scale + digits.length⟩ := by
  induction digits generalizing value scale with
  | nil => rfl
  | cons c digits ih =>
      obtain ⟨hc, hdigits⟩ := List.forall_mem_cons.mp hdigits
      rw [Nat.ofDigitChars_cons] at hroom ⊢
      rw [List.length_cons] at hplaces ⊢
      have hnext := Nat.lt_of_le_of_lt (le_ofDigitChars digits _) hroom
      rw [readFraction?, if_neg (ne_of_isDigit hc rfl), digit?_of_isDigit hc]
      simp only [Option.bind_eq_bind, Option.bind_some]
      rw [if_pos ⟨by omega, hnext⟩, ih hdigits _ (scale + 1) (by omega) hroom]
      congr 2
      omega

/-- The digits of an amount without its sign. -/
def magnitudeDigits (x : Decimal) : List Char :=
  if x.scale = 0 then natDigits x.coefficient.natAbs
  else Binary64.fixedDigits x.scale x.coefficient.natAbs

theorem digits_eq (x : Decimal) :
    x.digits = Binary64.signedText (x.coefficient < 0) x.magnitudeDigits := rfl

/-- **The magnitude of an amount is read back**, with all its places. -/
theorem readWhole?_magnitudeDigits (x : Decimal) :
    readWhole? false 0 x.magnitudeDigits = some ⟨x.coefficient.natAbs, x.scale⟩ := by
  have hbound : x.coefficient.natAbs < coefficientBound := x.coefficient_lt
  rw [magnitudeDigits]
  split
  · rename_i hscale
    have hvalue : Nat.ofDigitChars 10 (natDigits x.coefficient.natAbs) 0 = x.coefficient.natAbs :=
      Nat.ofDigitChars_ten_toDigits
    have hdigits : ∀ c ∈ natDigits x.coefficient.natAbs, c.isDigit = true :=
      fun _ => isDigit_of_mem_natDigits
    have hread := readWhole?_append hdigits false 0 [] (hvalue.symm ▸ hbound)
    have hsome : (natDigits x.coefficient.natAbs).isEmpty = false :=
      List.isEmpty_eq_false_iff.mpr Nat.toDigits_ne_nil
    rw [List.append_nil, hvalue, hsome] at hread
    rw [hread, hscale]
    rfl
  · obtain ⟨whole, fraction, htext, hwhole, hlength, hdigits, hvalue⟩ :=
      Binary64.exists_fixedDigits_eq x.scale x.coefficient.natAbs
    rw [Nat.ofDigitChars_append] at hvalue
    have hroom : Nat.ofDigitChars 10 whole 0 < coefficientBound := by
      have hle := le_ofDigitChars fraction (Nat.ofDigitChars 10 whole 0)
      omega
    have hplaces : 0 + fraction.length ≤ maxScale := by
      have hscale := x.scale_le
      rw [maxScale]
      omega
    rw [htext, readWhole?_append (fun c hc => hdigits c (List.mem_append_left _ hc)) false 0 _
      hroom, List.isEmpty_eq_false_iff.mpr hwhole]
    rw [readWhole?, if_neg (by decide), if_pos rfl]
    rw [Bool.not_false, Bool.or_true, readFraction?_digits
      (fun c hc => hdigits c (List.mem_append_right _ hc)) _ 0 hplaces (hvalue.symm ▸ hbound),
      hvalue, Nat.zero_add, hlength]

/-- The first character of a magnitude is a digit, so it is no sign. -/
theorem exists_magnitudeDigits_eq_cons (x : Decimal) :
    ∃ c rest, x.magnitudeDigits = c :: rest ∧ c.isDigit = true := by
  rw [magnitudeDigits]
  split
  · obtain ⟨c, rest, hcons⟩ := List.exists_cons_of_ne_nil
      (Nat.toDigits_ne_nil (b := 10) (n := x.coefficient.natAbs))
    exact ⟨c, rest, hcons, isDigit_of_mem_natDigits (hcons ▸ List.mem_cons_self)⟩
  · obtain ⟨whole, fraction, htext, hwhole, -, hdigits, -⟩ :=
      Binary64.exists_fixedDigits_eq x.scale x.coefficient.natAbs
    obtain ⟨c, rest, rfl⟩ := List.exists_cons_of_ne_nil hwhole
    exact ⟨c, rest ++ '.' :: fraction, htext, hdigits c List.mem_cons_self⟩

theorem ofPlain?_hyphen (s : List Char) :
    ofPlain? ('-' :: s) =
      (readWhole? false 0 s).bind fun r => ofParts? (-(r.coefficient : Int)) r.scale := rfl

theorem ofPlain?_of_isDigit {c : Char} (hc : c.isDigit = true) (s : List Char) :
    ofPlain? (c :: s) =
      (readWhole? false 0 (c :: s)).bind fun r => ofParts? r.coefficient r.scale := by
  have hhyphen : c ≠ '-' := ne_of_isDigit hc rfl
  have hplus : c ≠ '+' := ne_of_isDigit hc rfl
  unfold ofPlain?
  split
  rename_i heq
  split at heq
  · rename_i hcons
    exact absurd (List.cons.inj hcons).1 hhyphen
  · rename_i hcons
    exact absurd (List.cons.inj hcons).1 hplus
  · obtain ⟨rfl, rfl⟩ := Prod.mk.inj heq
    rfl

theorem ofPlain?_digits (x : Decimal) : ofPlain? x.digits = some x := by
  have hread := readWhole?_magnitudeDigits x
  rw [digits_eq, Binary64.signedText]
  by_cases hneg : x.coefficient < 0
  · have hcoefficient : -(x.coefficient.natAbs : Int) = x.coefficient := by omega
    rw [if_pos (decide_eq_true hneg), ofPlain?_hyphen, hread, Option.bind_some, hcoefficient,
      ofParts?_self]
  · have hcoefficient : (x.coefficient.natAbs : Int) = x.coefficient := by omega
    obtain ⟨c, rest, hcons, hc⟩ := exists_magnitudeDigits_eq_cons x
    rw [if_neg (fun h => hneg (of_decide_eq_true h)), hcons, ofPlain?_of_isDigit hc, ← hcons,
      hread, Option.bind_some, hcoefficient, ofParts?_self]

/-- An amount is written in digits, with a hyphen and a point at most. -/
theorem mem_digits {x : Decimal} {c : Char} (h : c ∈ x.digits) :
    c = '-' ∨ c = '.' ∨ c.isDigit = true := by
  have hmagnitude : ∀ c ∈ x.magnitudeDigits, c = '.' ∨ c.isDigit = true := by
    intro c hc
    rw [magnitudeDigits] at hc
    split at hc
    · exact Or.inr (isDigit_of_mem_natDigits hc)
    · obtain ⟨whole, fraction, htext, -, -, hdigits, -⟩ :=
        Binary64.exists_fixedDigits_eq x.scale x.coefficient.natAbs
      rw [htext] at hc
      rcases List.mem_append.mp hc with hwhole | hrest
      · exact Or.inr (hdigits c (List.mem_append_left _ hwhole))
      · rcases List.mem_cons.mp hrest with hpoint | hfraction
        · exact Or.inl hpoint
        · exact Or.inr (hdigits c (List.mem_append_right _ hfraction))
  rw [digits_eq, Binary64.signedText] at h
  split at h
  · rcases List.mem_cons.mp h with hhyphen | hrest
    · exact Or.inl hhyphen
    · exact Or.inr (hmagnitude c hrest)
  · exact Or.inr (hmagnitude c h)

/-- **An amount is read back from its text**, with its scale. -/
theorem ofText?_toText (x : Decimal) : ofText? x.toText = some x := by
  rw [ofText?, toText, String.toList_ofList, ofDigits?, ofPlain?_digits]
  rfl

end Decimal

end PcAssembly
