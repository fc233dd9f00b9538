import PcAssembly.Json.Printer
import PcAssembly.Proofs.Json.Literal

/-! # Doubles are written as literals

    The data form of a finite double is a literal of the grammar: whichever way
    its shortest digits are laid out, no zero stands in front of another digit,
    and at least one digit stands on each side of a point.  A double without a
    finite value is written as null. -/

namespace PcAssembly

namespace Binary64

/-- Only positive multiples are looked at. -/
theorem pos_of_nearestOnGrid? {mantissa : Nat} {exponent step : Int} {n : Nat}
    (h : nearestOnGrid? mantissa exponent step = some n) : 0 < n := by
  grind [nearestOnGrid?]

/-- Something is left without the trailing zeros. -/
theorem stripZeros_pos {fuel n : Nat} (h : 0 < n) : 0 < (stripZeros fuel n).1 := by
  induction fuel generalizing n with
  | zero => exact h
  | succ fuel ih =>
      rw [stripZeros]
      split
      · exact ih (by omega)
      · exact h

/-- The shortest digits make a positive number, or they are a lone zero. -/
theorem shortest_pos (mantissa : Nat) (exponent : Int) :
    0 < (shortest mantissa exponent).digits ∨ (shortest mantissa exponent).exponent = 0 := by
  rw [shortest]
  dsimp only
  cases hfound : (List.range 17).findSome? fun (places : Nat) =>
      (nearestOnGrid? mantissa exponent (decimalMagnitude mantissa exponent - places)).map
        fun digits => (digits, decimalMagnitude mantissa exponent - places) with
  | none => exact Or.inr rfl
  | some found =>
      obtain ⟨places, -, hdigits⟩ := List.exists_of_findSome?_eq_some hfound
      obtain ⟨digits, hgrid, rfl⟩ := Option.map_eq_some_iff.mp hdigits
      exact Or.inl (stripZeros_pos (pos_of_nearestOnGrid? hgrid))

end Binary64

namespace Json.Number

open PcAssembly.Number Binary64

/-- A sign in front of the parts of a literal leaves them a literal. -/
theorem exists_isLiteral_signedText {text whole fractionText fraction exponentText : List Char}
    {exponent : Option Int} (htext : text = whole ++ (fractionText ++ exponentText))
    (hwhole : AreCanonical whole) (hfraction : IsFraction fractionText fraction)
    (hexponent : IsExponent exponentText exponent) (negative : Bool) :
    ∃ l, IsLiteral (signedText negative text) l := by
  have hliteral := IsLiteral.parts negative hwhole hfraction hexponent
  rw [← htext] at hliteral
  cases negative with
  | true => exact ⟨_, hliteral⟩
  | false => exact ⟨_, hliteral⟩

theorem areCanonical_natDigits (n : Nat) : AreCanonical (natDigits n) :=
  (natDigits_eq_iff.mp rfl).1

/-- The front of canonical digits is canonical. -/
theorem areCanonical_of_append {front rest : List Char} (h : AreCanonical (front ++ rest))
    (hfront : front ≠ []) : AreCanonical front where
  ne_nil := hfront
  isDigit c hc := h.isDigit c (List.mem_append_left rest hc)
  eq_nil_of_zero after hafter := by
    rw [hafter] at h
    exact (List.append_eq_nil_iff.mp (h.eq_nil_of_zero (after ++ rest) rfl)).1

/-- What follows in canonical digits is digits. -/
theorem areDigits_of_append {front rest : List Char} (h : AreCanonical (front ++ rest))
    (hrest : rest ≠ []) : AreDigits rest where
  ne_nil := hrest
  isDigit c hc := h.isDigit c (List.mem_append_right front hc)

theorem isDigit_of_mem_zeros {count : Nat} {c : Char} (h : c ∈ zeros count) : c.isDigit = true := by
  rw [List.eq_of_mem_replicate h]
  rfl

/-- Zeros behind the digits of a positive number. -/
theorem areCanonical_append_zeros {n count : Nat} (h : 0 < n ∨ count = 0) :
    AreCanonical (natDigits n ++ zeros count) := by
  rcases h with hpos | rfl
  · rw [natDigits_append hpos fun _ => isDigit_of_mem_zeros]
    exact areCanonical_natDigits _
  · rw [zeros, List.replicate_zero, List.append_nil]
    exact areCanonical_natDigits n

/-- The digits of a whole number are an exponent behind its mark. -/
theorem exists_isExponent (i : Int) : ∃ exponent, IsExponent ('e' :: intDigits i) exponent := by
  have hdigits := (areCanonical_natDigits i.natAbs).toAreDigits
  rw [intDigits]
  split
  · exact ⟨_, .present (Or.inl rfl) .minus hdigits⟩
  · exact ⟨_, .present (Or.inl rfl) .absent hdigits⟩

/-! ### The three layouts -/

variable {decimal : Decimated}

/-- Digits of a whole number, with a zero behind the point. -/
theorem exists_isLiteral_whole (h : 0 < decimal.digits ∨ decimal.exponent = 0)
    (hexponent : 0 ≤ decimal.exponent) (negative : Bool) :
    ∃ l, IsLiteral (signedText negative (positional (natDigits decimal.digits)
      ((natDigits decimal.digits).length + decimal.exponent) ++ ['.', '0'])) l := by
  have hlength := List.length_pos_iff.mpr (areCanonical_natDigits decimal.digits).ne_nil
  have hplaces : ((natDigits decimal.digits).length + decimal.exponent).toNat =
      (natDigits decimal.digits).length + decimal.exponent.toNat := by
    omega
  rw [positional, if_neg (by omega), if_pos (by omega), hplaces, Nat.add_sub_cancel_left]
  have hcanonical : AreCanonical (natDigits decimal.digits ++ zeros decimal.exponent.toNat) :=
    areCanonical_append_zeros (by omega)
  have hfraction : IsFraction ['.', '0'] ['0'] := .present ⟨by simp, by simp⟩
  exact exists_isLiteral_signedText (by simp) hcanonical hfraction .absent negative

/-- Digits that do not all stand in front of the point. -/
theorem exists_isLiteral_positional (hexponent : decimal.exponent < 0) (negative : Bool) :
    ∃ l, IsLiteral (signedText negative (positional (natDigits decimal.digits)
      ((natDigits decimal.digits).length + decimal.exponent))) l := by
  have hcanonical := areCanonical_natDigits decimal.digits
  generalize natDigits decimal.digits = digits at hcanonical ⊢
  rw [positional]
  split
  · have hzero : AreCanonical ['0'] := areCanonical_natDigits 0
    have hdigits : AreDigits (zeros (digits.length + decimal.exponent).natAbs ++ digits) := by
      refine ⟨by simp [hcanonical.ne_nil], fun c hc => ?_⟩
      rcases List.mem_append.mp hc with hc | hc
      · exact isDigit_of_mem_zeros hc
      · exact hcanonical.isDigit c hc
    exact exists_isLiteral_signedText (by simp) hzero (.present hdigits) .absent negative
  · rename_i hplaces
    rw [if_neg (by omega)]
    rw [← List.take_append_drop (digits.length + decimal.exponent).toNat digits] at hcanonical
    refine exists_isLiteral_signedText (by simp) (areCanonical_of_append hcanonical ?_)
      (.present (areDigits_of_append hcanonical ?_)) .absent negative
    · rw [← List.length_pos_iff, List.length_take]
      omega
    · rw [← List.length_pos_iff, List.length_drop]
      omega

/-- One digit in front of the point and an exponent behind the others. -/
theorem exists_isLiteral_exponent {first : Char} {rest fractionText fraction : List Char}
    (h : AreCanonical ([first] ++ rest)) (hfraction : IsFraction fractionText fraction)
    (exponent : Int) (negative : Bool) :
    ∃ l, IsLiteral
      (signedText negative (first :: fractionText ++ 'e' :: intDigits exponent)) l := by
  obtain ⟨value, hvalue⟩ := exists_isExponent exponent
  exact exists_isLiteral_signedText (by simp) (areCanonical_of_append h (by simp)) hfraction hvalue
    negative

/-- **Shortest digits are laid out as a literal.** -/
theorem exists_isLiteral_dataDigits (h : 0 < decimal.digits ∨ decimal.exponent = 0)
    (negative : Bool) : ∃ l, IsLiteral (signedText negative (dataDigits decimal)) l := by
  have hcanonical := areCanonical_natDigits decimal.digits
  rw [dataDigits]
  dsimp only
  split
  · rename_i hwhole
    exact exists_isLiteral_whole h hwhole.1 negative
  · split
    · exact exists_isLiteral_positional (by omega) negative
    · split
      · rename_i hnil
        exact absurd hnil hcanonical.ne_nil
      · rename_i digit hdigit
        rw [hdigit] at hcanonical
        exact exists_isLiteral_exponent hcanonical .absent _ negative
      · rename_i first rest hrest hdigits
        rw [hdigits] at hcanonical
        have hdigits : AreDigits rest :=
          areDigits_of_append (show AreCanonical ([first] ++ rest) from hcanonical) hrest
        exact exists_isLiteral_exponent hcanonical (.present hdigits) _ negative

/-- **A double is written as a literal, or as null** if it has no finite value. -/
theorem exists_isLiteral_write (x : Float) :
    (∃ l, IsLiteral (Number.write (.double x)) l) ∨
      isFinite x = false ∧ Number.write (.double x) = "null".toList := by
  rw [Number.write, dataText?, isFinite]
  split
  · have hzero : AreCanonical ['0'] := areCanonical_natDigits 0
    exact Or.inl (exists_isLiteral_signedText rfl hzero (.present hzero.toAreDigits) .absent _)
  · exact Or.inl (exists_isLiteral_dataDigits (shortest_pos _ _) _)
  · rename_i hzero hfinite
    refine Or.inr ⟨?_, rfl⟩
    split
    · rename_i hview
      exact absurd hview (hfinite _ _ _)
    · rfl

end Json.Number

end PcAssembly
