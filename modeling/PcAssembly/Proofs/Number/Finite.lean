import Mathlib
import PcAssembly.Json.Fields
import PcAssembly.Json.Number
import PcAssembly.Proofs.Number.Nan

/-! # The doubles of a data text are finite

    A literal too large for a double has no double at all, so every double that
    is read is finite (`isFinite_of_ofLiteral`).  For products the reader looks
    at the result.  A quotient it takes as it comes, and that is right because
    no divisor is below two: a quotient by two or more stays half a range away
    from infinity, and rounding moves it up to the next power of two at most
    (`inRange_roundWithAccuracy`). -/

namespace PcAssembly.Binary64

open Float.Model (Format UnpackedFloat totalExponent)
open Float.Model.Format (binary64)
open Float.Model.UnpackedFloat

/-! ### Exponents -/

/-- No infinity and no NaN, and the exponent of the last place is `top` at most. -/
def InRange (top : Int) : UnpackedFloat → Prop
  | .zero _ => True
  | .finite _ _ exponent _ => exponent ≤ top
  | .infinity _ => False
  | .notANumber => False

/-- The exponents of the last places of doubles lie between those of the smallest
    and of the largest ones. -/
structure IsExponent (exponent : Int) : Prop where
  bottom_le : -1074 ≤ exponent
  le_top : exponent ≤ 971

theorem IsExponent.top : IsExponent 971 := ⟨by decide, by decide⟩

/-- The exponent field of a bit pattern. -/
def exponentField (x : Float) : Nat :=
  (@unpackExponent binary64 x.toModel.toBits.toBitVec).toNat

/-- The exponent has eleven bits. -/
theorem exponentField_lt (x : Float) : exponentField x < 2048 := BitVec.isLt _

/-- The exponent field of a double without a finite value is all ones. -/
theorem isFinite_iff {x : Float} : isFinite x = true ↔ exponentField x ≤ 2046 := by
  have hfield : exponentField x = x.toBits.toNat / hiddenBit % 2048 :=
    toNat_unpackExponent x.toBits
  have hlt := exponentField_lt x
  unfold isFinite view viewOfBits
  dsimp only
  rw [← hfield]
  split
  · rename_i hview
    split at hview
    · split at hview <;> cases hview
    · simp only [true_iff]
      omega
  · rename_i hview
    split at hview
    · simp only [Bool.false_eq_true, false_iff]
      omega
    · split at hview
      · exact absurd rfl (hview _ _ _)
      · exact absurd rfl (hview _ _ _)

/-- The exponent field says in which range a double is. -/
theorem inRange_unpack_iff {top : Int} (htop : IsExponent top) {x : Float} :
    InRange top x.toModel.unpack ↔ exponentField x ≤ (top + 1075).toNat := by
  obtain ⟨hbottom, htop⟩ := htop
  have hlt := exponentField_lt x
  unfold Float.Model.unpack UnpackedFloat.unpack
  simp only [← BitVec.toNat_inj]
  change InRange top
    (if exponentField x = 2047 then _ else if exponentField x = 0 then _ else _) ↔ _
  split
  · split <;> simp only [InRange, false_iff] <;> omega
  · split
    · split
      · simp only [InRange, true_iff]
        omega
      · simp only [InRange]
        change (exponentField x : Int) - (1023 + 52) + 1 ≤ top ↔ _
        omega
    · simp only [InRange]
      change (exponentField x : Int) - (1023 + 52) ≤ top ↔ _
      omega

/-- A double is finite if it unpacks to something in range. -/
theorem isFinite_iff_inRange {x : Float} : isFinite x = true ↔ InRange 971 x.toModel.unpack :=
  isFinite_iff.trans (inRange_unpack_iff .top).symm

/-- Packing keeps the range. -/
theorem InRange.unpack_pack {top : Int} (htop : IsExponent top) {f : UnpackedFloat}
    (h : InRange top f) : InRange top (Float.Model.pack f).unpack := by
  refine (inRange_unpack_iff htop (x := .ofModel (.pack f))).mpr ?_
  obtain ⟨hbottom, htop⟩ := htop
  change (@unpackExponent binary64 (pack binary64 f)).toNat ≤ _
  cases f with
  | zero sign =>
      rw [pack, packedZero, unpackExponent_packComponents]
      exact Nat.zero_le _
  | finite sign mantissa exponent hpos =>
      have hexponent : exponent ≤ top := h
      rw [pack]
      dsimp only
      split
      · rename_i hlarge
        change 2048 ≤ (exponent + 1023 + 52).toNat + 1 at hlarge
        omega
      · split
        · rw [unpackExponent_packComponents, BitVec.toNat_ofNat]
          refine Nat.le_trans (Nat.mod_le _ _) ?_
          change (exponent + 1023 + 52).toNat ≤ _
          omega
        · rw [unpackExponent_packComponents]
          exact Nat.zero_le _
  | infinity sign => exact h.elim
  | notANumber => exact h.elim

/-- A wider range holds what a narrower one does. -/
theorem InRange.mono {bottom top : Int} (hle : bottom ≤ top) {f : UnpackedFloat}
    (h : InRange bottom f) : InRange top f := by
  cases f with
  | finite => exact Int.le_trans h hle
  | _ => exact h

/-- What is in range packs to a finite double. -/
theorem isFinite_ofModel_pack {top : Int} (htop : top ≤ 971) {f : UnpackedFloat}
    (h : InRange top f) : isFinite (.ofModel (.pack f)) = true :=
  isFinite_iff_inRange.mpr ((h.mono htop).unpack_pack .top)

/-- A finite double has at most 53 bits in front of its exponent. -/
theorem mantissa_lt_of_unpack {x : Float.Model} {sign mantissa exponent hpos}
    (h : x.unpack = .finite sign mantissa exponent hpos) : mantissa < 2 ^ 53 := by
  unfold Float.Model.unpack UnpackedFloat.unpack at h
  dsimp only at h
  split at h
  · split at h <;> cases h
  · split at h
    · split at h
      · cases h
      · cases h
        exact Nat.lt_trans (@unpackMantissa binary64 x.toBits.toBitVec).isLt (by decide)
    · cases h
      exact BitVec.isLt _

/-! ### Rounding -/

/-- A mantissa loses a bit for every place it is shifted. -/
theorem mantissa_shiftRight (em : ExtendedMantissa) (n : Nat) :
    (em >>> n).mantissa = em.mantissa / 2 ^ n := by
  change (n.repeat ExtendedMantissa.shiftRightOne em).mantissa = _
  induction n with
  | zero => simp [Nat.repeat]
  | succ n ih =>
      rw [Nat.repeat, ExtendedMantissa.shiftRightOne, ih, Nat.div_div_eq_div_mul, ← Nat.pow_succ]

/-- Rounding adds one to a mantissa at most. -/
theorem roundedMantissa_le (em : ExtendedMantissa) : em.roundedMantissa ≤ em.mantissa + 1 := by
  obtain ⟨mantissa, roundBit, stickyBit⟩ := em
  cases roundBit <;> cases stickyBit <;>
    simp [ExtendedMantissa.roundedMantissa, ExtendedMantissa.accuracy,
      Accuracy.roundToNearestEven]
  omega

/-- Rounding moves a mantissa up to the next power of two at most. -/
theorem roundedMantissa_shiftRight_le {m k : Nat} (h : m < 2 ^ k) (accuracy : Accuracy) (n : Nat) :
    (ExtendedMantissa.ofMantissaAndAccuracy m accuracy >>> n).roundedMantissa ≤ 2 ^ (k - n) := by
  refine Nat.le_trans (roundedMantissa_le _) ?_
  have hmantissa : (ExtendedMantissa.ofMantissaAndAccuracy m accuracy).mantissa = m := by
    unfold ExtendedMantissa.ofMantissaAndAccuracy
    split <;> rfl
  rw [mantissa_shiftRight, hmantissa, Nat.succ_le_iff, Nat.div_lt_iff_lt_mul (Nat.two_pow_pos n),
    ← Nat.pow_add]
  exact Nat.lt_of_lt_of_le h (Nat.pow_le_pow_right (by decide) (by omega))

/-- A number up to a power of two has its logarithm up to the exponent. -/
theorem log2_le_of_le {m k : Nat} (h : m ≤ 2 ^ k) : m.log2 ≤ k := by
  rcases Nat.eq_zero_or_pos m with rfl | hpos
  · exact Nat.zero_le k
  · refine Nat.le_of_lt_succ ((Nat.log2_lt (Nat.pos_iff_ne_zero.mp hpos)).mpr ?_)
    exact Nat.lt_of_le_of_lt h (Nat.pow_lt_pow_right (by decide) (Nat.lt_succ_self k))

/-- **What is below half the range is rounded into the range.** -/
theorem inRange_roundWithAccuracy {top : Int} (htop : IsExponent top) {m k : Nat} {e : Int}
    (hm : m < 2 ^ k) (he : e ≤ top) (hk : k + e ≤ top + 52) (sign : Sign) (accuracy : Accuracy) :
    InRange top (roundWithAccuracy binary64 sign m e accuracy) := by
  obtain ⟨hbottom, htop⟩ := htop
  unfold roundWithAccuracy shiftToTargetExponent shiftToExponent
  dsimp only
  generalize hfirst : (binary64.targetExponent (totalExponent m e) - e).toNat = first
  have hrounded := roundedMantissa_shiftRight_le hm accuracy first
  generalize (ExtendedMantissa.ofMantissaAndAccuracy m accuracy >>> first).roundedMantissa =
    rounded at hrounded
  split
  · exact True.intro
  · -- of the two shifts the second one is there for a carry out of the rounding
    have hlog := log2_le_of_le (Nat.le_of_lt hm)
    have hlogRounded := log2_le_of_le hrounded
    simp only [InRange, totalExponent, Format.targetExponent, Format.minExponent,
      Format.mantissaBits] at *
    omega

/-! ### Operations -/

/-- Turning the sign keeps a double finite. -/
theorem isFinite_neg {x : Float} (h : isFinite x = true) : isFinite (-x) = true := by
  refine isFinite_ofModel_pack (Int.le_refl _) ?_
  have hrange := isFinite_iff_inRange.mp h
  cases hx : x.toModel.unpack <;> rw [hx] at hrange <;> exact hrange

/-- So does giving it a sign. -/
theorem isFinite_withSign {x : Float} (h : isFinite x = true) (negative : Bool) :
    isFinite (withSign negative x) = true := by
  cases negative with
  | false => exact h
  | true => exact isFinite_neg h

/-- A number that is two at least. -/
def IsDivisor (x : Float) : Bool :=
  match x.toModel.unpack with
  | .finite _ mantissa exponent _ => 2 ≤ totalExponent mantissa exponent
  | _ => false

/-- A quotient has as many bits as its operands differ by, and one more at most. -/
theorem shiftLeft_div_lt {m n : Nat} (hn : 0 < n) (shift : Nat) :
    (m <<< shift) / n < 2 ^ (m.log2 + 1 + shift - n.log2) := by
  rw [Nat.div_lt_iff_lt_mul hn, Nat.shiftLeft_eq]
  calc m * 2 ^ shift
      < 2 ^ (m.log2 + 1) * 2 ^ shift :=
        Nat.mul_lt_mul_of_pos_right Nat.lt_log2_self (Nat.two_pow_pos shift)
    _ ≤ 2 ^ (m.log2 + 1 + shift - n.log2) * 2 ^ n.log2 := by
        rw [← Nat.pow_add, ← Nat.pow_add]
        exact Nat.pow_le_pow_right (by decide) (by omega)
    _ ≤ 2 ^ (m.log2 + 1 + shift - n.log2) * n :=
        Nat.mul_le_mul_left _ (Nat.log2_self_le (Nat.pos_iff_ne_zero.mp hn))

/-- **A double divided by two or more is a double.** -/
theorem isFinite_div {x y : Float} (hx : isFinite x = true) (hy : IsDivisor y = true) :
    isFinite (x / y) = true := by
  refine isFinite_ofModel_pack (Int.le_refl _) ?_
  rw [IsDivisor] at hy
  split at hy
  case h_2 => cases hy
  rename_i sign₂ m₂ e₂ hpos₂ hdivisor
  have htotal : 2 ≤ totalExponent m₂ e₂ := of_decide_eq_true hy
  rw [hdivisor]
  have hrange := isFinite_iff_inRange.mp hx
  cases hdividend : x.toModel.unpack with
  | zero sign => exact True.intro
  | finite sign₁ m₁ e₁ hpos₁ =>
      have hlog := (Nat.log2_lt (Nat.pos_iff_ne_zero.mp hpos₁)).mpr
        (mantissa_lt_of_unpack hdividend)
      have he₁ : e₁ ≤ 971 := by rwa [hdividend] at hrange
      rw [UnpackedFloat.div, divCore]
      dsimp only
      generalize htarget : min (e₁ - e₂) (binary64.targetExponent
        (totalExponent m₁ e₁ - totalExponent m₂ e₂)) = target
      generalize hshift : (e₁ - e₂ - target).toNat = shift
      simp only [totalExponent, Format.targetExponent, Format.minExponent,
        Format.mantissaBits] at *
      exact inRange_roundWithAccuracy .top (shiftLeft_div_lt hpos₂ shift) (by omega) (by omega) _ _
  | infinity sign => rw [hdividend] at hrange; exact hrange.elim
  | notANumber => rw [hdividend] at hrange; exact hrange.elim

/-- Ten and its powers are divisors. -/
theorem isDivisor_powerOfTen {n : Nat} (hpos : 0 < n) (hn : n ≤ Json.Number.maxPower) :
    IsDivisor (powerOfTen n) = true := by
  have hall : ∀ m < Json.Number.maxPower, IsDivisor (powerOfTen (m + 1)) = true := by
    decide +kernel
  obtain ⟨m, rfl⟩ := Nat.exists_eq_add_one.mpr hpos
  exact hall m hn

/-! ### Integers as doubles -/

/-- The exponent that is enough for integers of 64 bits. -/
theorem IsExponent.ofInteger : IsExponent 12 := ⟨by decide, by decide⟩

/-- An integer of 64 bits is far from the top of the range. -/
theorem inRange_ofNat {n : Nat} (h : n < UInt64.size) :
    InRange 12 (UnpackedFloat.ofNat binary64 n) := by
  rw [UnpackedFloat.ofNat, UnpackedFloat.ofInt, UnpackedFloat.normalize]
  split
  · rename_i hneg
    rw [Int.compare_eq_lt] at hneg
    omega
  · exact True.intro
  · rw [UnpackedFloat.round, decreaseExponent]
    dsimp only
    generalize hshift : (0 - binary64.targetExponent (totalExponent _ _)).toNat = shift
    refine inRange_roundWithAccuracy (k := 64 + shift) .ofInteger ?_ (by omega) (by omega) _ _
    rw [Nat.shiftLeft_eq, Nat.pow_add]
    exact Nat.mul_lt_mul_of_pos_right h (Nat.two_pow_pos _)

/-- The double of an integer of 64 bits is finite. -/
theorem isFinite_toFloat (n : UInt64) : isFinite n.toFloat = true :=
  isFinite_ofModel_pack (by decide) (inRange_ofNat n.toNat_lt)

/-- A number times ten to the power zero is rounded from its own digits. -/
theorem ofScientific_zero {n : Nat} (hn : n ≠ 0) :
    UnpackedFloat.ofScientific binary64 n 0 =
      roundWithAccuracy binary64 .positive (n <<< 53 * 1) (-53) .exact := by
  have hlarge : ¬ (0 : Int) > 2 ^ 11 := by decide
  have hsmall : ¬ (0 : Int) < -((2 ^ 11 : Int) + n.log2) := by omega
  rw [UnpackedFloat.ofScientific, dif_neg hn, if_neg hlarge, if_neg hsmall,
    if_pos (Int.le_refl 0), mul]
  rfl

/-- So is an integer of 64 bits that is written without an exponent. -/
theorem inRange_ofScientific {n : Nat} (h : n < UInt64.size) :
    InRange 12 (UnpackedFloat.ofScientific binary64 n 0) := by
  rcases Nat.eq_zero_or_pos n with rfl | hpos
  · exact True.intro
  · rw [ofScientific_zero (Nat.pos_iff_ne_zero.mp hpos)]
    have hm : n <<< 53 * 1 < 2 ^ (64 + 53) := by
      rw [Nat.mul_one, Nat.shiftLeft_eq, Nat.pow_add]
      exact Nat.mul_lt_mul_of_pos_right h (Nat.two_pow_pos 53)
    exact inRange_roundWithAccuracy .ofInteger hm (by decide) (by decide) _ _

/-- A small integer is multiplied by one. -/
theorem isFinite_toFloat_mul_one (n : UInt64) :
    isFinite (n.toFloat * .ofBits 0x3FF0000000000000) = true := by
  refine isFinite_ofModel_pack (Int.le_refl _) ?_
  have hrange : InRange 12 n.toFloat.toModel.unpack :=
    (inRange_ofNat n.toNat_lt).unpack_pack .ofInteger
  have hone : (Float.ofBits 0x3FF0000000000000).toModel.unpack =
      .finite .positive (2 ^ 52) (-52) (by decide) := rfl
  rw [hone]
  cases hfactor : n.toFloat.toModel.unpack with
  | zero sign => exact True.intro
  | finite sign m e hpos =>
      have he : e ≤ 12 := by rwa [hfactor] at hrange
      have hm : m * 2 ^ 52 < 2 ^ (53 + 52) := by
        rw [Nat.pow_add]
        exact Nat.mul_lt_mul_of_pos_right (mantissa_lt_of_unpack hfactor) (Nat.two_pow_pos 52)
      exact inRange_roundWithAccuracy .top hm (by omega) (by omega) _ _
  | infinity sign => rw [hfactor] at hrange; exact hrange.elim
  | notANumber => rw [hfactor] at hrange; exact hrange.elim

/-- The double of a natural number of 64 bits is finite. -/
theorem isFinite_ofNat {n : Nat} (h : n < UInt64.size) : isFinite (Float.ofNat n) = true := by
  change isFinite (Float.ofScientific n false 0) = true
  rw [Float.ofScientific]
  split
  · exact isFinite_toFloat_mul_one _
  · exact isFinite_ofModel_pack (by decide) (inRange_ofScientific h)

/-- The double of an integer that fits in 64 bits is finite. -/
theorem isFinite_ofInt {i : Int} (hmin : Int64.minValue.toInt ≤ i) (hmax : i < UInt64.size) :
    isFinite (Float.ofInt i) = true := by
  have hmin : -(2 : Int) ^ 63 ≤ i := hmin
  cases i with
  | ofNat n => exact isFinite_ofNat (Int.ofNat_lt.mp hmax)
  | negSucc n =>
      refine isFinite_neg (isFinite_ofNat ?_)
      simp only [UInt64.size]
      omega

end PcAssembly.Binary64

namespace PcAssembly.Json.Number

open Binary64

/-- A number that is read from its parts is finite. -/
theorem isFinite_of_floatOfParts? {significand : Nat} {power : Int} {x : Float}
    (h : floatOfParts? significand power = some x) : isFinite x = true := by
  have hsignificand := isFinite_toFloat (UInt64.ofNat significand)
  have hmax : 0 < maxPower := by decide
  unfold floatOfParts? at h
  dsimp only at h
  split at h
  · cases h
    exact hsignificand
  · split at h
    · split at h
      · split at h
        · cases h
          assumption
        · cases h
      · cases h
    · split at h
      · cases h
        exact isFinite_div hsignificand (isDivisor_powerOfTen (by omega) ‹_›)
      · split at h
        · cases h
          refine isFinite_div (isFinite_div hsignificand (isDivisor_powerOfTen hmax ?_))
            (isDivisor_powerOfTen ?_ ?_)
          all_goals omega
        · cases h
          exact isFinite_ofNat (by decide)

/-- **Every double that is read is finite.** -/
theorem isFinite_of_ofLiteral {l : Literal} {x : Float} (h : ofLiteral l = .double x) :
    isFinite x = true := by
  unfold ofLiteral at h
  dsimp only at h
  split at h
  · cases h
  · split at h
    · cases h
    · split at h
      · rename_i hparts
        cases h
        exact isFinite_withSign (isFinite_of_floatOfParts? hparts) l.negative
      · cases h

/-- Integers are read in 64 bits, signed or unsigned. -/
theorem bounds_of_ofLiteral {l : Literal} {i : Int} (h : ofLiteral l = .integer i) :
    Int64.minValue.toInt ≤ i ∧ i < UInt64.size := by
  unfold ofLiteral at h
  dsimp only at h
  have hsize : 0 < UInt64.size := by decide
  have hmin : Int64.minValue.toInt ≤ 0 := by decide
  split at h
  · rename_i hwhole
    simp only [Bool.and_eq_true, decide_eq_true_eq] at hwhole
    cases h
    omega
  · split at h
    · rename_i hwhole
      simp only [Bool.and_eq_true, decide_eq_true_eq] at hwhole
      cases h
      omega
    · split at h <;> cases h

/-- **Every number that is read as a double has a finite value.** -/
theorem isFinite_of_float? {l : Literal} {x : Float}
    (h : Json.float? (.number (ofLiteral l)) = some x) : isFinite x = true := by
  cases hnumber : ofLiteral l with
  | integer i =>
      rw [hnumber] at h
      cases h
      obtain ⟨hmin, hmax⟩ := bounds_of_ofLiteral hnumber
      exact isFinite_ofInt hmin hmax
  | double y =>
      rw [hnumber] at h
      cases h
      exact isFinite_of_ofLiteral hnumber
  | beyondRange =>
      rw [hnumber] at h
      cases h

end PcAssembly.Json.Number
