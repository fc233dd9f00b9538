import PcAssembly.Decimal.Sum
import PcAssembly.Proofs.Decimal.Value

/-! # How exact a sum is

    A sum is rounded only if its coefficient has more than 96 bits, and then
    to the most places that fit.  So three things can be said of it: there is
    none exactly when the sum is too large even without places, it is off by
    half a unit of its last place at most, and it is exact whenever some
    amount has its value. -/

namespace PcAssembly

namespace Binary64

variable {n d : Nat}

/-- A rounded quotient is off by a half at most, and by a half below only if
    it is even. -/
theorem divideHalfEven_spec (hd : 0 < d) :
    2 * n ≤ (2 * divideHalfEven n d + 1) * d ∧
      2 * divideHalfEven n d * d ≤ 2 * n + d ∧
      (2 * n = (2 * divideHalfEven n d + 1) * d → divideHalfEven n d % 2 = 0) := by
  have hdivision : d * (n / d) + n % d = n := Nat.div_add_mod n d
  have hremainder : n % d < d := Nat.mod_lt n hd
  rw [divideHalfEven]
  generalize n / d = q at *
  generalize n % d = r at *
  have hcomm : d * q = q * d := Nat.mul_comm d q
  split
  · -- rounded up: the rest is more than a half, or it is a half and the quotient was odd
    have hunit : 2 * (q + 1) * d = 2 * (q * d) + 2 * d := by ring
    have hhalf : (2 * (q + 1) + 1) * d = 2 * (q * d) + 3 * d := by ring
    rw [hunit, hhalf]
    omega
  · have hunit : 2 * q * d = 2 * (q * d) := by ring
    have hhalf : (2 * q + 1) * d = 2 * (q * d) + d := by ring
    rw [hunit, hhalf]
    omega

/-- A quotient without a remainder is not rounded. -/
theorem divideHalfEven_mul (q : Nat) (hd : 0 < d) : divideHalfEven (q * d) d = q := by
  simp only [divideHalfEven, Nat.mul_mod_left, Nat.mul_div_cancel q hd]
  rw [if_neg (by omega)]

/-- A rounded quotient is below an even bound exactly if the quotient is below
    it by more than a half. -/
theorem divideHalfEven_lt_iff {bound : Nat} (hd : 0 < d) (heven : bound % 2 = 0) :
    divideHalfEven n d < bound ↔ 2 * n + d < 2 * bound * d := by
  obtain ⟨hlow, hhigh, htie⟩ := divideHalfEven_spec (n := n) hd
  constructor
  · intro hlt
    have hnext : (2 * divideHalfEven n d + 1) * d + d = 2 * (divideHalfEven n d + 1) * d := by
      ring
    have hbound : 2 * (divideHalfEven n d + 1) * d ≤ 2 * bound * d :=
      Nat.mul_le_mul_right d (Nat.mul_le_mul_left 2 hlt)
    by_cases hlast : divideHalfEven n d + 1 = bound
    · -- the last coefficient below the bound is odd, so a half above it is rounded away
      have hne : 2 * n ≠ (2 * divideHalfEven n d + 1) * d := fun heq => by
        have hzero := htie heq
        omega
      omega
    · have hstrict : 2 * (divideHalfEven n d + 1) * d < 2 * bound * d :=
        Nat.mul_lt_mul_of_pos_right (by omega) hd
      omega
  · intro hlt
    have hcancel : 2 * divideHalfEven n d * d < 2 * bound * d := Nat.lt_of_le_of_lt hhigh hlt
    have hdouble := Nat.lt_of_mul_lt_mul_right hcancel
    omega

end Binary64

/-- The first success of a search is found behind failures only. -/
theorem findSome?_range_eq_some_iff {β : Type} {f : Nat → Option β} {n : Nat} {b : β} :
    (List.range n).findSome? f = some b ↔ ∃ i < n, f i = some b ∧ ∀ j < i, f j = none := by
  induction n with
  | zero => simp
  | succ n ih =>
      rw [List.range_succ, List.findSome?_append, Option.or_eq_some_iff, ih,
        List.findSome?_eq_none_iff]
      constructor
      · rintro (⟨i, hi, hb, hearlier⟩ | ⟨hnone, hb⟩)
        · exact ⟨i, Nat.lt_succ_of_lt hi, hb, hearlier⟩
        · refine ⟨n, Nat.lt_succ_self n, by simpa using hb, fun j hj => ?_⟩
          exact hnone j (List.mem_range.mpr hj)
      · rintro ⟨i, hi, hb, hearlier⟩
        rcases Nat.lt_succ_iff_lt_or_eq.mp hi with hlt | rfl
        · exact Or.inl ⟨i, hlt, hb, hearlier⟩
        · exact Or.inr ⟨fun j hj => hearlier j (List.mem_range.mp hj), by simpa using hb⟩

namespace Decimal

/-! ## Rounding a coefficient -/

/-- A coefficient is rounded without regard to its sign. -/
theorem natAbs_roundedCoefficient (coefficient : Int) (drop : Nat) :
    (roundedCoefficient coefficient drop).natAbs =
      Binary64.divideHalfEven coefficient.natAbs (10 ^ drop) := by
  rw [roundedCoefficient]
  split <;> simp

/-- A rounded coefficient is off by half a unit at most. -/
theorem abs_roundedCoefficient_sub_le (coefficient : Int) (drop : Nat) :
    |(roundedCoefficient coefficient drop : ℚ) * 10 ^ drop - coefficient| ≤ 10 ^ drop / 2 := by
  obtain ⟨hlow, hhigh, -⟩ :=
    Binary64.divideHalfEven_spec (n := coefficient.natAbs) (d := 10 ^ drop) (by positivity)
  have hlow : (2 * coefficient.natAbs : ℚ) ≤
      (2 * Binary64.divideHalfEven coefficient.natAbs (10 ^ drop) + 1) * 10 ^ drop := by
    exact_mod_cast hlow
  have hhigh : (2 * Binary64.divideHalfEven coefficient.natAbs (10 ^ drop) * 10 ^ drop : ℚ) ≤
      2 * coefficient.natAbs + 10 ^ drop := by
    exact_mod_cast hhigh
  rw [roundedCoefficient]
  rw [Nat.pow_eq, abs_le]
  split
  · rename_i hneg
    have habs : ((coefficient.natAbs : Nat) : ℚ) = -(coefficient : ℚ) := by
      rw [Nat.cast_natAbs, Int.cast_abs, abs_of_neg (by exact_mod_cast hneg)]
    rw [habs] at hlow hhigh
    push_cast
    constructor <;> linarith
  · rename_i hnonneg
    have habs : ((coefficient.natAbs : Nat) : ℚ) = (coefficient : ℚ) := by
      rw [Nat.cast_natAbs, Int.cast_abs,
        abs_of_nonneg (by exact_mod_cast Int.not_lt.mp hnonneg)]
    rw [habs] at hlow hhigh
    push_cast
    constructor <;> linarith

/-- Places that are all zero are given up for nothing. -/
theorem roundedCoefficient_mul (coefficient : Int) (drop : Nat) :
    roundedCoefficient (coefficient * 10 ^ drop) drop = coefficient := by
  have habs : (coefficient * 10 ^ drop).natAbs = coefficient.natAbs * 10 ^ drop := by
    rw [Int.natAbs_mul, Int.natAbs_pow]
    rfl
  have hsign : coefficient * 10 ^ drop < 0 ↔ coefficient < 0 := by
    constructor
    · intro h
      exact neg_of_mul_neg_left h (by positivity)
    · intro h
      exact mul_neg_of_neg_of_pos h (by positivity)
  rw [roundedCoefficient]
  rw [habs, Nat.pow_eq, Binary64.divideHalfEven_mul _ (by positivity)]
  simp only [hsign]
  split <;> omega

/-! ## Fitting a coefficient -/

/-- Sums from here on have no amount. -/
def overflowBound : ℚ := coefficientBound - 1 / 2

/-- An amount is made of its own coefficient and scale. -/
theorem ofParts?_eq_some_iff {coefficient : Int} {scale : Nat} {z : Decimal} :
    ofParts? coefficient scale = some z ↔ z.coefficient = coefficient ∧ z.scale = scale := by
  constructor
  · intro h
    rw [ofParts?] at h
    split at h
    · cases h
      exact ⟨rfl, rfl⟩
    · cases h
  · rintro ⟨rfl, rfl⟩
    exact ofParts?_self z

/-- The rounded coefficient fits exactly below the bound, at its scale. -/
theorem fits_iff (coefficient : Int) (drop : Nat) :
    (roundedCoefficient coefficient drop).natAbs < coefficientBound ↔
      |(coefficient : ℚ)| < overflowBound * 10 ^ drop := by
  rw [natAbs_roundedCoefficient,
    Binary64.divideHalfEven_lt_iff (by positivity) (by decide), ← Int.cast_abs, ← Nat.cast_natAbs,
    overflowBound]
  have hcast : 2 * coefficient.natAbs + 10 ^ drop < 2 * coefficientBound * 10 ^ drop ↔
      (2 * coefficient.natAbs + 10 ^ drop : ℚ) < 2 * coefficientBound * 10 ^ drop := by
    exact_mod_cast Iff.rfl
  rw [hcast]
  constructor <;> intro h <;> linarith

/-- A rounded coefficient does not fit exactly if the number is too large for
    the places kept. -/
theorem ofParts?_rounded_eq_none_iff {coefficient : Int} {scale drop : Nat} (hscale : scale ≤ 28) :
    ofParts? (roundedCoefficient coefficient drop) (scale - drop) = none ↔
      overflowBound * 10 ^ drop ≤ |(coefficient : ℚ)| := by
  rw [← not_lt, ← fits_iff, ofParts?, dite_eq_right_iff]
  have hplaces : scale - drop ≤ 28 := Nat.le_trans (Nat.sub_le _ _) hscale
  simp [hplaces, coefficientBound]

/-- The most places that fit are kept. -/
theorem fit?_eq_some_iff {coefficient : Int} {scale : Nat} (hscale : scale ≤ 28) {z : Decimal} :
    fit? coefficient scale = some z ↔
      ∃ drop ≤ scale, z.coefficient = roundedCoefficient coefficient drop ∧
        z.scale = scale - drop ∧
        ∀ fewer < drop, overflowBound * 10 ^ fewer ≤ |(coefficient : ℚ)| := by
  rw [fit?, findSome?_range_eq_some_iff]
  simp only [ofParts?_eq_some_iff, ofParts?_rounded_eq_none_iff hscale, Nat.lt_succ_iff, and_assoc]

/-- Nothing fits exactly if the amount is too large without places. -/
theorem fit?_eq_none_iff {coefficient : Int} {scale : Nat} (hscale : scale ≤ 28) :
    fit? coefficient scale = none ↔ overflowBound * 10 ^ scale ≤ |(coefficient : ℚ)| := by
  rw [fit?, List.findSome?_eq_none_iff]
  simp only [List.mem_range, Nat.lt_succ_iff, ofParts?_rounded_eq_none_iff hscale]
  constructor
  · intro h
    exact h scale (Nat.le_refl _)
  · intro h drop hdrop
    have hpow : (10 : ℚ) ^ drop ≤ 10 ^ scale := pow_le_pow_right₀ (by norm_num) hdrop
    have hbound : (0 : ℚ) ≤ overflowBound := by norm_num [overflowBound, coefficientBound]
    exact le_trans (mul_le_mul_of_nonneg_left hpow hbound) h

/-! ## What holds of a sum -/

/-- `z` stands for `number` as well as an amount with this many places can.  It
    is off by half a unit of its last place at most, and it is rounded only if
    one more place would not fit. -/
structure IsRounded (z : Decimal) (number : ℚ) (places : Nat) : Prop where
  scale_le : z.scale ≤ places
  error_le : |z.value - number| ≤ 1 / (2 * 10 ^ z.scale)
  rounded : z.value = number ∨
    z.scale < places ∧ overflowBound ≤ |number| * 10 ^ (z.scale + 1)

/-- The coefficient of an amount fits. -/
theorem abs_value_lt (x : Decimal) : |x.value| * 10 ^ x.scale < overflowBound := by
  have hcoefficient : |(x.coefficient : ℚ)| ≤ coefficientBound - 1 := by
    have hlt := x.coefficient_lt
    rw [← Int.cast_abs, ← Nat.cast_natAbs, le_sub_iff_add_le]
    exact_mod_cast hlt
  have hpow : (0 : ℚ) < 10 ^ x.scale := by positivity
  rw [value, abs_div, abs_of_pos hpow, div_mul_cancel₀ _ hpow.ne', overflowBound]
  linarith

/-- An amount stands for its own value. -/
theorem isRounded_self (x : Decimal) {places : Nat} (hplaces : x.scale ≤ places) :
    x.IsRounded x.value places where
  scale_le := hplaces
  error_le := by
    rw [sub_self, abs_zero]
    positivity
  rounded := Or.inl rfl

section Fitting

variable {coefficient : Int} {kept drop : Nat} {number x : ℚ}

/-- Rounding a coefficient changes its number by half a unit at most. -/
private theorem abs_sub_le_of_rounded (hexact : number * (10 ^ kept * 10 ^ drop) = coefficient)
    (hx : x * 10 ^ kept = roundedCoefficient coefficient drop) :
    |x - number| ≤ 1 / (2 * 10 ^ kept) := by
  have herror := abs_roundedCoefficient_sub_le coefficient drop
  have hkept : (0 : ℚ) < 10 ^ kept := by positivity
  have hdrop : (0 : ℚ) < 10 ^ drop := by positivity
  have hfactor : (roundedCoefficient coefficient drop : ℚ) * 10 ^ drop - coefficient =
      (x - number) * (10 ^ kept * 10 ^ drop) := by
    rw [← hx, ← hexact]
    ring
  rw [hfactor, abs_mul, abs_of_pos (mul_pos hkept hdrop)] at herror
  rw [le_div_iff₀ (by positivity)]
  have hscaled : |x - number| * (2 * 10 ^ kept) * 10 ^ drop ≤ 1 * 10 ^ drop := by linarith
  exact le_of_mul_le_mul_right hscaled hdrop

/-- A coefficient that ends in zeros is not changed by dropping them. -/
private theorem eq_of_dropped_zeros {whole : Int}
    (hexact : number * (10 ^ kept * 10 ^ drop) = coefficient)
    (hzeros : coefficient = whole * 10 ^ drop)
    (hx : x * 10 ^ kept = roundedCoefficient coefficient drop) : x = number := by
  have hdrop : (10 ^ drop : ℚ) ≠ 0 := by positivity
  have hkept : (10 ^ kept : ℚ) ≠ 0 := by positivity
  rw [hzeros, roundedCoefficient_mul] at hx
  rw [hzeros, ← mul_assoc] at hexact
  push_cast at hexact
  exact mul_right_cancel₀ hkept (hx.trans (mul_right_cancel₀ hdrop hexact).symm)

/-- If a place less was not enough, another place would not fit. -/
private theorem overflowBound_le_of_dropped
    (hexact : number * (10 ^ kept * 10 ^ (drop + 1)) = coefficient)
    (hbound : overflowBound * 10 ^ drop ≤ |(coefficient : ℚ)|) :
    overflowBound ≤ |number| * 10 ^ (kept + 1) := by
  have hdrop : (0 : ℚ) < 10 ^ drop := by positivity
  have hscale : (0 : ℚ) < 10 ^ kept * 10 ^ (drop + 1) := by positivity
  rw [← hexact, abs_mul, abs_of_pos hscale] at hbound
  have hscaled : overflowBound * 10 ^ drop ≤ |number| * 10 ^ (kept + 1) * 10 ^ drop := by
    rw [pow_succ] at hbound ⊢
    linarith
  exact le_of_mul_le_mul_right hscaled hdrop

end Fitting

/-- A coefficient that fits is rounded to the most places that fit. -/
theorem isRounded_of_fit? {coefficient : Int} {scale : Nat} (hscale : scale ≤ 28) {z : Decimal}
    (h : fit? coefficient scale = some z) : z.IsRounded (coefficient / 10 ^ scale) scale := by
  obtain ⟨drop, hdrop, hcoefficient, hplaces, hfewer⟩ := (fit?_eq_some_iff hscale).mp h
  obtain ⟨kept, rfl⟩ := Nat.exists_eq_add_of_le' hdrop
  rw [Nat.add_sub_cancel] at hplaces
  have hvalue : z.value * 10 ^ kept = roundedCoefficient coefficient drop := by
    rw [value, hcoefficient, hplaces, div_mul_cancel₀ _ (by positivity)]
  have hexact : (coefficient / 10 ^ (kept + drop) : ℚ) * (10 ^ kept * 10 ^ drop) = coefficient := by
    rw [← pow_add, div_mul_cancel₀ _ (by positivity)]
  generalize (coefficient / 10 ^ (kept + drop) : ℚ) = number at *
  -- either no place was given up, or giving up one less was not enough
  have hcases : z.value = number ∨
      kept < kept + drop ∧ overflowBound ≤ |number| * 10 ^ (kept + 1) := by
    cases drop with
    | zero => exact Or.inl (eq_of_dropped_zeros hexact (by rw [pow_zero, mul_one]) hvalue)
    | succ drop =>
        exact Or.inr ⟨by omega,
          overflowBound_le_of_dropped hexact (hfewer drop (Nat.lt_succ_self drop))⟩
  exact ⟨by omega, hplaces ▸ abs_sub_le_of_rounded hexact hvalue, hplaces ▸ hcases⟩

/-! ## Sums of two amounts -/

/-- A coefficient at a finer scale stands for the same value. -/
theorem coefficientAt_cast (x : Decimal) {scale : Nat} (hscale : x.scale ≤ scale) :
    (x.coefficientAt scale : ℚ) = x.value * 10 ^ scale := by
  obtain ⟨finer, rfl⟩ := Nat.exists_eq_add_of_le hscale
  rw [coefficientAt, value, pow_add, ← mul_assoc, div_mul_cancel₀ _ (by positivity),
    Nat.add_sub_cancel_left, Nat.pow_eq]
  push_cast
  rfl

/-- An amount without a coefficient has no value. -/
theorem value_eq_zero_of_coefficient {x : Decimal} (h : x.coefficient = 0) : x.value = 0 := by
  rw [value, h, Int.cast_zero, zero_div]

variable {x y z : Decimal} {number : ℚ} {places : Nat}

/-- The sum of the coefficients at the finer scale is that of the values. -/
theorem coefficientAt_add (x y : Decimal) :
    ((x.coefficientAt (max x.scale y.scale) + y.coefficientAt (max x.scale y.scale) : Int) : ℚ) =
      (x.value + y.value) * 10 ^ max x.scale y.scale := by
  rw [Int.cast_add, coefficientAt_cast x (le_max_left _ _), coefficientAt_cast y (le_max_right _ _),
    add_mul]

theorem max_scale_le (x y : Decimal) : max x.scale y.scale ≤ 28 :=
  max_le x.scale_le y.scale_le

/-- **A sum is rounded to the most places that fit.** -/
theorem isRounded_of_add? (h : x.add? y = some z) :
    z.IsRounded (x.value + y.value) (max x.scale y.scale) := by
  rw [add?] at h
  split at h
  · rename_i hzero
    cases h
    rw [value_eq_zero_of_coefficient hzero, zero_add]
    exact isRounded_self y (le_max_right _ _)
  · split at h
    · rename_i hzero
      cases h
      rw [value_eq_zero_of_coefficient hzero, add_zero]
      exact isRounded_self x (le_max_left _ _)
    · have hfitted := isRounded_of_fit? (max_scale_le x y) h
      rw [coefficientAt_add, mul_div_cancel_right₀ _ (by positivity)] at hfitted
      exact hfitted

/-- An amount alone is never too large. -/
theorem abs_value_lt_overflowBound (x : Decimal) : |x.value| < overflowBound := by
  have hpow : (1 : ℚ) ≤ 10 ^ x.scale := one_le_pow₀ (by norm_num)
  exact lt_of_le_of_lt (le_mul_of_one_le_right (abs_nonneg _) hpow) x.abs_value_lt

/-- **A sum overflows exactly if it is too large even without places.** -/
theorem add?_eq_none_iff : x.add? y = none ↔ overflowBound ≤ |x.value + y.value| := by
  rw [add?]
  split
  · rename_i hzero
    rw [value_eq_zero_of_coefficient hzero, zero_add]
    simp [y.abs_value_lt_overflowBound]
  · split
    · rename_i hzero
      rw [value_eq_zero_of_coefficient hzero, add_zero]
      simp [x.abs_value_lt_overflowBound]
    · have hpow : (0 : ℚ) < 10 ^ max x.scale y.scale := by positivity
      rw [fit?_eq_none_iff (max_scale_le x y), coefficientAt_add, abs_mul, abs_of_pos hpow,
        mul_le_mul_iff_left₀ hpow]

namespace IsRounded

/-- A number that fits with all its places is not rounded. -/
theorem exact_of_fits (h : z.IsRounded number places)
    (hfits : |number| * 10 ^ places < overflowBound) : z.value = number := by
  rcases h.rounded with heq | ⟨hfewer, hlarge⟩
  · exact heq
  · have hpow : (10 : ℚ) ^ (z.scale + 1) ≤ 10 ^ places :=
      pow_le_pow_right₀ (by norm_num) hfewer
    exact absurd (le_trans hlarge (mul_le_mul_of_nonneg_left hpow (abs_nonneg number)))
      (not_le.mpr hfits)

/-- An amount is off by one part in ten to the twenty-eighth at most. -/
theorem abs_sub_le_mul (h : z.IsRounded number places) :
    |z.value - number| ≤ |number| / 10 ^ 28 := by
  rcases h.rounded with heq | ⟨-, hlarge⟩
  · rw [heq, sub_self, abs_zero]
    positivity
  · refine le_trans h.error_le ?_
    have hpow : (0 : ℚ) < 10 ^ z.scale := by positivity
    have hbound : (5 * 10 ^ 28 : ℚ) ≤ overflowBound := by
      norm_num [overflowBound, coefficientBound]
    rw [div_le_div_iff₀ (by positivity) (by positivity)]
    rw [pow_succ] at hlarge
    linarith

end IsRounded

end Decimal

end PcAssembly
