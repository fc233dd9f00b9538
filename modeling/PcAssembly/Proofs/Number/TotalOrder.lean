import Mathlib
import PcAssembly.Proofs.Number.Nan

/-! # The total order of doubles

    Doubles are compared by their bit patterns.  All of them have a place in
    this order, signed zeros, infinities and NaNs included, and no two of them
    the same (`orderKey_injective`).  Numbers come in the order of the numbers
    they are, and a NaN comes before all numbers or behind them, by its sign
    bit (`isAtMost_of_orderKey_le`). -/

namespace PcAssembly

namespace Binary64

/-- The number that a pattern without sign stands for, in units of the least
    positive double. -/
def units (pattern : Nat) : Nat :=
  if pattern / hiddenBit = 0 then pattern % hiddenBit
  else (hiddenBit + pattern % hiddenBit) * 2 ^ (pattern / hiddenBit - 1)

/-- The units of a pattern by its fields. -/
theorem units_fields {fraction : Nat} (h : fraction < hiddenBit) (field : Nat) :
    units (hiddenBit * field + fraction) =
      if field = 0 then fraction else (hiddenBit + fraction) * 2 ^ (field - 1) := by
  have hfield : (hiddenBit * field + fraction) / hiddenBit = field := by
    rw [Nat.mul_add_div (by decide), Nat.div_eq_of_lt h, Nat.add_zero]
  rw [units, hfield, Nat.mul_add_mod, Nat.mod_eq_of_lt h]

/-- The next pattern stands for no smaller number. -/
theorem units_le_succ (pattern : Nat) : units pattern ≤ units (pattern + 1) := by
  have hfraction : pattern % hiddenBit < hiddenBit := Nat.mod_lt _ (by decide)
  have hpattern : hiddenBit * (pattern / hiddenBit) + pattern % hiddenBit = pattern :=
    Nat.div_add_mod pattern hiddenBit
  generalize pattern / hiddenBit = field, pattern % hiddenBit = fraction at hfraction hpattern
  subst hpattern
  rw [units_fields hfraction]
  by_cases hlast : fraction + 1 < hiddenBit
  · rw [Nat.add_assoc, units_fields hlast]
    split
    · omega
    · exact Nat.mul_le_mul_right _ (by omega)
  · -- all fraction bits are set: the next pattern has the next field
    have hnext : hiddenBit * field + fraction + 1 = hiddenBit * (field + 1) + 0 := by
      rw [Nat.mul_add]
      omega
    rw [hnext, units_fields (by decide), if_neg field.succ_ne_zero, Nat.add_sub_cancel]
    split
    · rename_i hzero
      rw [hzero]
      omega
    · rename_i hpos
      obtain ⟨below, rfl⟩ := Nat.exists_eq_succ_of_ne_zero hpos
      rw [Nat.succ_eq_add_one, Nat.add_sub_cancel, Nat.pow_succ, Nat.add_zero,
        Nat.mul_comm (2 ^ below) 2, ← Nat.mul_assoc]
      exact Nat.mul_le_mul_right _ (by omega)

/-- The number that a view stands for; infinities are the ends of the line. -/
noncomputable def View.value? : View → Option EReal
  | .finite negative mantissa exponent =>
      let size : ℝ := mantissa * 2 ^ exponent
      some (if negative then -size else size)
  | .infinite negative => some (if negative then -⊤ else ⊤)
  | .nan => none

/-- The size of a pattern without sign. -/
noncomputable def size (pattern : Nat) : EReal :=
  if pattern < 2047 * hiddenBit then (units pattern * 2 ^ (-1074 : ℤ) : ℝ) else ⊤

/-- Patterns are in the order of their sizes. -/
theorem size_mono : Monotone size := by
  intro x y hle
  rw [size, size]
  split
  · split
    · have hunits : (units x : ℝ) ≤ units y :=
        Nat.cast_le.mpr (monotone_nat_of_le_succ units_le_succ hle)
      exact EReal.coe_le_coe_iff.mpr (by gcongr)
    · exact le_top
  · rw [if_neg (by omega)]

theorem size_nonneg (pattern : Nat) : 0 ≤ size pattern := by
  rw [size]
  split
  · exact EReal.coe_nonneg.mpr (by positivity)
  · exact le_top

/-- The size of a finite pattern, by its fields. -/
theorem size_eq {pattern mantissa : Nat} {exponent : Int} (hfinite : pattern < 2047 * hiddenBit)
    (h : (units pattern : ℝ) = mantissa * 2 ^ (exponent + 1074)) :
    size pattern = (mantissa * 2 ^ exponent : ℝ) := by
  rw [size, if_pos hfinite, h, mul_assoc, ← zpow_add₀ two_ne_zero, Int.add_neg_cancel_right]

/-- The sign bit leaves the other fields alone. -/
theorem viewOfBits_eq {bits pattern : Nat} {negative : Bool} (hpattern : pattern < signBit)
    (hbits : bits = (if negative then signBit else 0) + pattern) :
    viewOfBits bits =
      if pattern / hiddenBit = 2047 then
        if pattern % hiddenBit = 0 then .infinite negative else .nan
      else if pattern / hiddenBit = 0 then .finite negative (pattern % hiddenBit) (-1074)
      else .finite negative (hiddenBit + pattern % hiddenBit)
        (((pattern / hiddenBit : Nat) : Int) - 1075) := by
  have hsign : decide (signBit ≤ bits) = negative := by
    cases negative with
    | false => simpa [hbits] using hpattern
    | true => simp [hbits]
  have hfields : bits / hiddenBit % 2048 = pattern / hiddenBit ∧
      bits % hiddenBit = pattern % hiddenBit := by
    simp only [signBit, hiddenBit] at hpattern hbits ⊢
    split at hbits <;> omega
  rw [viewOfBits, hsign, hfields.1, hfields.2]

/-- The number of a pattern is its size, or the opposite if it has the sign bit. -/
theorem value?_viewOfBits {bits pattern : Nat} {negative : Bool} {a : EReal}
    (hpattern : pattern < signBit) (hbits : bits = (if negative then signBit else 0) + pattern)
    (h : (viewOfBits bits).value? = some a) :
    a = if negative then -size pattern else size pattern := by
  have hbound : pattern < 2047 * hiddenBit ↔ pattern / hiddenBit ≠ 2047 := by
    simp only [signBit, hiddenBit] at hpattern ⊢
    omega
  rw [viewOfBits_eq hpattern hbits] at h
  split at h
  · rename_i hfield
    split at h
    · have hsize : size pattern = ⊤ := if_neg fun hfinite => hbound.mp hfinite hfield
      rw [hsize]
      exact (Option.some.inj h).symm
    · exact absurd h.symm (Option.some_ne_none a)
  · rename_i hfield
    split at h
    · rename_i hzero
      have hsize : size pattern = ((pattern % hiddenBit : ℕ) * 2 ^ (-1074 : ℤ) : ℝ) :=
        size_eq (hbound.mpr hfield) (by simp [units, hzero])
      rw [hsize]
      exact (Option.some.inj h).symm
    · rename_i hpos
      have hexponent : ((pattern / hiddenBit : ℕ) : ℤ) - 1075 + 1074 =
          (pattern / hiddenBit - 1 : ℕ) := by
        rw [Nat.cast_pred (Nat.pos_of_ne_zero hpos)]
        ring
      have hsize : size pattern = ((hiddenBit + pattern % hiddenBit : ℕ) *
          2 ^ (((pattern / hiddenBit : ℕ) : ℤ) - 1075) : ℝ) := by
        refine size_eq (hbound.mpr hfield) ?_
        rw [units, if_neg hpos, hexponent, zpow_natCast]
        push_cast
        rfl
      rw [hsize]
      exact (Option.some.inj h).symm

end Binary64

namespace Double

open Binary64

/-- The sign bit is set. -/
def isNegative (x : Double) : Bool := decide (signBit ≤ x.bits.toNat)

/-- The pattern without the sign bit. -/
def pattern (x : Double) : Nat := x.bits.toNat % signBit

/-- The number that a double is, if it is one. -/
noncomputable def value? (x : Double) : Option EReal := (viewOfBits x.bits.toNat).value?

theorem pattern_lt (x : Double) : x.pattern < signBit := Nat.mod_lt _ (by decide)

theorem isNegative_iff {x : Double} : x.isNegative = true ↔ signBit ≤ x.bits.toNat :=
  decide_eq_true_iff

/-- The bits are the sign bit and the pattern behind it. -/
theorem bits_eq (x : Double) :
    x.bits.toNat = (if x.isNegative then signBit else 0) + x.pattern := by
  have hbits := x.bits.toNat_lt
  simp only [isNegative_iff, pattern, signBit]
  split <;> omega

/-- Without the sign bit patterns count up from zero, with it down from minus
    one. -/
theorem orderKey_eq (x : Double) :
    x.orderKey = if x.isNegative then -1 - (x.pattern : Int) else x.pattern := by
  have hbits := x.bits.toNat_lt
  simp only [orderKey, isNegative_iff, pattern, signBit]
  omega

/-- The order key tells all doubles apart: the patterns of non-negative sign
    have the keys from zero up, the others those from minus one down. -/
theorem orderKey_injective : Function.Injective orderKey := by
  intro x y h
  obtain ⟨xBits⟩ := x
  obtain ⟨yBits⟩ := y
  refine congrArg Double.mk (UInt64.toNat_inj.mp ?_)
  have hx := xBits.toNat_lt
  have hy := yBits.toNat_lt
  simp only [orderKey, signBit] at h
  -- keys of different signs differ in sign, so equal keys come from one case of the definition
  omega

@[simp] theorem orderKey_inj {x y : Double} : x.orderKey = y.orderKey ↔ x = y :=
  orderKey_injective.eq_iff

/-- NaNs are the patterns above infinity. -/
theorem isNan_iff {x : Double} : x.isNan = true ↔ 2047 * hiddenBit < x.pattern := by
  have hbits := x.bits.toNat_lt
  rw [isNan_iff_fields]
  simp only [pattern, signBit, hiddenBit]
  omega

/-- The number of a double is its size, or the opposite if it has the sign bit. -/
theorem value?_eq {x : Double} {a : EReal} (h : x.value? = some a) :
    a = if x.isNegative then -size x.pattern else size x.pattern :=
  value?_viewOfBits x.pattern_lt x.bits_eq h

/-- **Of numbers the larger one has the larger key.** -/
theorem value_le_of_orderKey_le {x y : Double} (h : x.orderKey ≤ y.orderKey) {a b : EReal}
    (hx : x.value? = some a) (hy : y.value? = some b) : a ≤ b := by
  rw [value?_eq hx, value?_eq hy]
  rw [orderKey_eq, orderKey_eq] at h
  by_cases hxSign : x.isNegative = true
  · by_cases hySign : y.isNegative = true
    · rw [if_pos hxSign, if_pos hySign] at h ⊢
      exact EReal.neg_le_neg_iff.mpr (size_mono (by omega))
    · rw [if_pos hxSign, if_neg hySign]
      exact (EReal.neg_le_zero.mpr (size_nonneg _)).trans (size_nonneg _)
  · by_cases hySign : y.isNegative = true
    · rw [if_neg hxSign, if_pos hySign] at h
      omega
    · rw [if_neg hxSign, if_neg hySign] at h ⊢
      exact size_mono (by omega)

/-- What it means that one double is not above another in the total order: a
    number is not above a smaller one, and a NaN is above all numbers or below
    them, by its sign bit. -/
structure IsAtMost (x y : Double) : Prop where
  value : ∀ a b, x.value? = some a → y.value? = some b → a ≤ b
  isNegative_of_nan : x.isNan = true → y.isNan = false → x.isNegative = true
  not_isNegative_of_nan : x.isNan = false → y.isNan = true → y.isNegative = false

/-- **The total order is that of the numbers**, with the NaNs around them. -/
theorem isAtMost_of_orderKey_le {x y : Double} (h : x.orderKey ≤ y.orderKey) : x.IsAtMost y where
  value _ _ := value_le_of_orderKey_le h
  isNegative_of_nan hx hy := by
    have hx := isNan_iff.mp hx
    have hy := mt isNan_iff.mpr (ne_true_of_eq_false hy)
    by_contra hsign
    rw [orderKey_eq, if_neg hsign, orderKey_eq] at h
    split at h <;> omega
  not_isNegative_of_nan hx hy := by
    have hx := mt isNan_iff.mpr (ne_true_of_eq_false hx)
    have hy := isNan_iff.mp hy
    by_contra hsign
    rw [Bool.not_eq_false] at hsign
    rw [orderKey_eq, orderKey_eq, if_pos hsign] at h
    split at h <;> omega

end Double

end PcAssembly
