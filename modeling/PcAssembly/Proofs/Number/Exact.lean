import Mathlib
import PcAssembly.Number.Binary64

/-! # Exact doubles

    A double holds every number of up to 53 bits, times a power of two that is
    neither too small nor too large.  As long as operands and result are such
    numbers, nothing is rounded: what is computed is the double of the exact
    result (`dyadic_add`, `neg_dyadic`, `half_dyadic`).  For rounding works on
    the value alone: zeros behind a mantissa do not matter, whether there are
    too many of them or too few (`round_shiftLeft`). -/

namespace PcAssembly.Binary64

open Float.Model (Format UnpackedFloat totalExponent)
open Float.Model.Format (binary64)
open Float.Model.UnpackedFloat

/-! ### Zeros behind a mantissa -/

/-- Zeros behind a positive number raise its logarithm by their number. -/
theorem log2_shiftLeft {m : Nat} (hpos : 0 < m) (n : Nat) : (m <<< n).log2 = m.log2 + n := by
  have hne := Nat.pos_iff_ne_zero.mp hpos
  have hshift : m <<< n ≠ 0 := by
    rw [Nat.shiftLeft_eq]
    exact Nat.mul_ne_zero hne (Nat.two_pow_pos n).ne'
  refine (Nat.log2_eq_iff hshift).mpr ⟨?_, ?_⟩
  · rw [Nat.shiftLeft_eq, Nat.pow_add]
    exact Nat.mul_le_mul_right _ (Nat.log2_self_le hne)
  · rw [Nat.shiftLeft_eq, Nat.add_right_comm, Nat.pow_add]
    exact Nat.mul_lt_mul_of_pos_right Nat.lt_log2_self (Nat.two_pow_pos n)

/-- Zeros are shifted out without a trace. -/
theorem shiftLeft_shiftRight (m n : Nat) :
    ExtendedMantissa.ofMantissaAndAccuracy (m <<< n) .exact >>> n =
      ExtendedMantissa.ofMantissaAndAccuracy m .exact := by
  induction n generalizing m with
  | zero => rfl
  | succ n ih =>
      change ExtendedMantissa.shiftRightOne
        (ExtendedMantissa.ofMantissaAndAccuracy (m <<< (n + 1)) .exact >>> n) = _
      rw [Nat.shiftLeft_succ_inside, ih]
      simp [ExtendedMantissa.shiftRightOne, ExtendedMantissa.ofMantissaAndAccuracy]

/-- A number whose 53 bits end at a place that doubles have is not rounded. -/
theorem roundWithAccuracy_shiftLeft {m : Nat} {e : Int} (hpos : 0 < m) (hfull : m.log2 = 52)
    (he : -1074 ≤ e) (sign : Sign) (n : Nat) :
    roundWithAccuracy binary64 sign (m <<< n) (e - n) .exact = .finite sign m e hpos := by
  have hshift (k : Nat) : shiftToTargetExponent binary64 (m <<< k) (e - k) .exact =
      (.ofMantissaAndAccuracy m .exact, e) := by
    have htarget : binary64.targetExponent (totalExponent (m <<< k) (e - k)) = e := by
      rw [totalExponent, log2_shiftLeft hpos, hfull]
      simp only [Format.targetExponent, Format.minExponent, Format.mantissaBits]
      omega
    have hamount : (e - (e - k)).toNat = k := by omega
    rw [shiftToTargetExponent, htarget, shiftToExponent, hamount]
    simp only [shiftLeft_shiftRight, Int.sub_add_cancel]
  -- there was no carry, so the second shift moves nothing
  have hagain : shiftToTargetExponent binary64 m e .exact =
      (.ofMantissaAndAccuracy m .exact, e) := by
    have h := hshift 0
    rwa [Nat.shiftLeft_zero, Int.ofNat_zero, Int.sub_zero] at h
  have hrounded : (ExtendedMantissa.ofMantissaAndAccuracy m .exact).roundedMantissa = m := rfl
  rw [roundWithAccuracy, hshift]
  dsimp only
  rw [hrounded, hagain]
  exact dif_neg (Nat.pos_iff_ne_zero.mp hpos)

/-- The zeros that fill a mantissa up to 53 bits. -/
def padding (m : Nat) : Nat := 52 - m.log2

/-- No number needs more than fifty-two zeros. -/
theorem padding_le (m : Nat) : padding m ≤ 52 := Nat.sub_le _ _

/-- A number below 2 ^ 53 is padded to full width. -/
theorem log2_add_padding {m : Nat} (hpos : 0 < m) (hm : m < 2 ^ 53) :
    m.log2 + padding m = 52 := by
  have hlog := (Nat.log2_lt (Nat.pos_iff_ne_zero.mp hpos)).mpr hm
  rw [padding]
  omega

/-- Zeros behind a positive number leave it positive. -/
theorem shiftLeft_padding_pos {m : Nat} (hpos : 0 < m) : 0 < m <<< padding m := by
  rw [Nat.shiftLeft_eq]
  exact Nat.mul_pos hpos (Nat.two_pow_pos _)

/-- A number of up to 53 bits is kept with 53 of them, however it is written. -/
theorem round_shiftLeft {m : Nat} {e : Int} (hpos : 0 < m) (hm : m < 2 ^ 53) (he : -1022 ≤ e)
    (sign : Sign) (n : Nat) :
    UnpackedFloat.round binary64 sign (m <<< n) (e - n) =
      .finite sign (m <<< padding m) (e - padding m) (shiftLeft_padding_pos hpos) := by
  have hpadding := log2_add_padding hpos hm
  have htarget : binary64.targetExponent (totalExponent (m <<< n) (e - n)) = e - padding m := by
    rw [totalExponent, log2_shiftLeft hpos]
    simp only [Format.targetExponent, Format.minExponent, Format.mantissaBits]
    omega
  -- zeros are missing or there are some to spare: one of the two differences is none
  have hamount : (e - n - (e - padding m)).toNat = padding m - n := by omega
  have hmantissa : m <<< n <<< (padding m - n) = m <<< padding m <<< (n - padding m) := by
    rw [← Nat.shiftLeft_add, ← Nat.shiftLeft_add]
    congr 1
    omega
  have hexponent : e - n - (padding m - n : Nat) = e - padding m - (n - padding m : Nat) := by
    omega
  rw [UnpackedFloat.round, htarget, decreaseExponent, hamount, hmantissa, hexponent]
  exact roundWithAccuracy_shiftLeft _ (by rw [log2_shiftLeft hpos, hpadding]) (by omega) sign _

/-! ### Numbers that a double holds -/

/-- `a · 2 ^ e` has 53 bits at most, and its places are places of doubles. -/
structure IsExact (a e : Int) : Prop where
  natAbs_lt : a.natAbs < 2 ^ 53
  bottom_le : -1022 ≤ e
  le_top : e ≤ 971

/-- The sign of a number other than zero. -/
def signOf (a : Int) : Sign := if a < 0 then .negative else .positive

/-- The sign of an integer gives it back from its magnitude. -/
theorem apply_signOf (a : Int) (n : Nat) :
    (signOf a).apply ((a.natAbs <<< n : Nat) : Int) = a * 2 ^ n := by
  rw [Nat.shiftLeft_eq, Int.natCast_mul, Int.natCast_pow, signOf]
  split
  · rw [Sign.apply, Int.ofNat_natAbs_of_nonpos (by omega), Int.neg_mul, Int.neg_neg]
    rfl
  · rw [Sign.apply, Int.natAbs_of_nonneg (by omega)]
    rfl

theorem normalize_zero (e : Int) :
    UnpackedFloat.normalize binary64 0 e .positive = .zero .positive := rfl

/-- A number other than zero is normalised by rounding its magnitude. -/
theorem normalize_of_ne_zero {a : Int} (hne : a ≠ 0) (e : Int) :
    UnpackedFloat.normalize binary64 a e .positive =
      UnpackedFloat.round binary64 (signOf a) a.natAbs e := by
  rw [UnpackedFloat.normalize, signOf]
  split
  · rename_i hneg
    rw [Int.compare_eq_lt] at hneg
    rw [if_pos hneg]
    congr 1
    omega
  · rename_i hzero
    exact absurd (Int.compare_eq_eq.mp hzero) hne
  · rename_i hpos
    rw [Int.compare_eq_gt] at hpos
    rw [if_neg (by omega)]
    congr 1
    omega

section Exact

variable {a b e : Int}

/-- How a number other than zero is kept. -/
theorem IsExact.normalize_eq (h : IsExact a e) (hne : a ≠ 0) :
    UnpackedFloat.normalize binary64 a e .positive =
      .finite (signOf a) (a.natAbs <<< padding a.natAbs) (e - padding a.natAbs)
        (shiftLeft_padding_pos (Int.natAbs_pos.mpr hne)) := by
  have hround := round_shiftLeft (Int.natAbs_pos.mpr hne) h.natAbs_lt h.bottom_le (signOf a) 0
  rwa [Nat.shiftLeft_zero, Int.ofNat_zero, Int.sub_zero, ← normalize_of_ne_zero hne] at hround

/-- The magnitude of an exact number is padded to full width. -/
theorem IsExact.log2_eq (h : IsExact a e) (hne : a ≠ 0) :
    (a.natAbs <<< padding a.natAbs).log2 = 52 := by
  have hpos := Int.natAbs_pos.mpr hne
  rw [log2_shiftLeft hpos, log2_add_padding hpos h.natAbs_lt]

/-- The padded magnitude stays above the smallest exponent. -/
theorem IsExact.bottom_le_sub (h : IsExact a e) : -1074 ≤ e - padding a.natAbs := by
  have hbottom := h.bottom_le
  have hpadding := padding_le a.natAbs
  omega

/-- Written with more places, a number is the same. -/
theorem IsExact.normalize_mul_two_pow (h : IsExact a e) (n : Nat) :
    UnpackedFloat.normalize binary64 (a * 2 ^ n) (e - n) .positive =
      UnpackedFloat.normalize binary64 a e .positive := by
  by_cases hzero : a = 0
  · subst hzero
    rw [Int.zero_mul]
    rfl
  · have hpower : (0 : Int) < 2 ^ n := Int.pow_pos (by decide)
    have hsign : signOf (a * 2 ^ n) = signOf a := by
      have hiff := Int.mul_lt_mul_right (b := a) (c := 0) hpower
      rw [Int.zero_mul] at hiff
      simp only [signOf, hiff]
    have habs : (a * 2 ^ n).natAbs = a.natAbs <<< n := by
      rw [Int.natAbs_mul, Int.natAbs_pow, Nat.shiftLeft_eq]
      rfl
    rw [normalize_of_ne_zero (Int.mul_ne_zero hzero hpower.ne'), hsign, habs,
      round_shiftLeft (Int.natAbs_pos.mpr hzero) h.natAbs_lt h.bottom_le, h.normalize_eq hzero]

/-! ### In 64 bits -/

/-- The sign can be taken out of the packed bits. -/
theorem ofBitVec_unpackSign (sign : Sign) (exponent : BitVec 11) (mantissa : BitVec 52) :
    Sign.ofBitVec (@unpackSign binary64 (packComponents binary64 sign exponent mantissa)) =
      sign := by
  rw [unpackSign, packComponents, BitVec.extractLsb,
    BitVec.extractLsb'_append_eq_of_le (by decide), BitVec.extractLsb'_append_eq_of_le (by decide)]
  cases sign <;> rfl

/-- The hidden bit in front of the fraction gives the mantissa back. -/
theorem toNat_hiddenBit_append {m : Nat} (hpos : 0 < m) (hfull : m.log2 = 52) :
    (1#1 ++ BitVec.ofNat 52 m).toNat = m := by
  obtain ⟨hlow, hhigh⟩ := (Nat.log2_eq_iff (Nat.pos_iff_ne_zero.mp hpos)).mp hfull
  rw [BitVec.toNat_append, ← Nat.shiftLeft_add_eq_or_of_lt (BitVec.isLt _), BitVec.toNat_ofNat,
    BitVec.toNat_ofNat, Nat.shiftLeft_eq]
  omega

/-- A full mantissa in range is packed without its hidden bit. -/
theorem pack_finite {m : Nat} (hpos : 0 < m) (hfull : m.log2 = 52) (he : e ≤ 971) (sign : Sign) :
    UnpackedFloat.pack binary64 (.finite sign m e hpos) =
      packComponents binary64 sign (.ofNat 11 (e + 1023 + 52).toNat) (.ofNat 52 m) := by
  rw [pack]
  dsimp only
  split
  · rename_i hlarge
    change 2048 ≤ (e + 1023 + 52).toNat + 1 at hlarge
    omega
  · rw [if_pos (by rw [hfull]; rfl)]
    rfl

/-- What a bit pattern stands for if its exponent field is neither all zeros nor
    all ones. -/
theorem unpack_eq_finite {bits : BitVec 64} {m : Nat} (hpos : 0 < m)
    (hmantissa : (1#1 ++ @unpackMantissa binary64 bits).toNat = m)
    (hzeros : (@unpackExponent binary64 bits).toNat ≠ 0)
    (hones : (@unpackExponent binary64 bits).toNat ≠ 2047) :
    UnpackedFloat.unpack binary64 bits = .finite (.ofBitVec (@unpackSign binary64 bits)) m
      ((@unpackExponent binary64 bits).toNat - 1075) hpos := by
  subst hmantissa
  have hzeros : @unpackExponent binary64 bits ≠ 0#11 := BitVec.toNat_inj.ne.mp hzeros
  have hones : @unpackExponent binary64 bits ≠ -1#11 := BitVec.toNat_inj.ne.mp hones
  unfold UnpackedFloat.unpack
  dsimp only
  rw [if_neg hones, if_neg hzeros]
  rfl

/-- A normal number comes out of the bits as it went into them. -/
theorem unpack_pack_finite {m : Nat} (hpos : 0 < m) (hfull : m.log2 = 52) (he : -1074 ≤ e)
    (he' : e ≤ 971) (sign : Sign) :
    (Float.Model.pack (.finite sign m e hpos)).unpack = .finite sign m e hpos := by
  have hfield : (BitVec.ofNat 11 (e + 1023 + 52).toNat).toNat = (e + 1075).toNat := by
    rw [BitVec.toNat_ofNat, Nat.mod_eq_of_lt (by omega)]
    omega
  change UnpackedFloat.unpack binary64 (UnpackedFloat.pack binary64 (.finite sign m e hpos)) = _
  rw [pack_finite hpos hfull he', unpack_eq_finite hpos]
  · rw [unpackExponent_packComponents, ofBitVec_unpackSign, hfield]
    congr 1
    omega
  · rw [unpackMantissa_packComponents]
    exact toNat_hiddenBit_append hpos hfull
  · rw [unpackExponent_packComponents, hfield]
    omega
  · rw [unpackExponent_packComponents, hfield]
    omega

/-- `a · 2 ^ e` as a double. -/
def dyadic (a e : Int) : Float :=
  .ofModel (.pack (UnpackedFloat.normalize binary64 a e .positive))

/-- Packing an exact number and unpacking it changes nothing. -/
theorem IsExact.unpack_dyadic (h : IsExact a e) :
    (dyadic a e).toModel.unpack = UnpackedFloat.normalize binary64 a e .positive := by
  rw [dyadic]
  by_cases hzero : a = 0
  · subst hzero
    rw [normalize_zero]
    rfl
  · have htop := h.le_top
    rw [h.normalize_eq hzero]
    exact unpack_pack_finite _ (h.log2_eq hzero) h.bottom_le_sub (by omega) _

/-- The rational number that a double stands for, if it is finite. -/
def value? (x : Float) : Option ℚ :=
  match x.toModel.unpack with
  | .zero _ => some 0
  | .finite sign mantissa exponent _ =>
      some ((sign.apply mantissa : Int) * (2 : ℚ) ^ exponent)
  | .infinity _ | .notANumber => none

/-- An exact number stands for what it says. -/
theorem IsExact.value?_dyadic (h : IsExact a e) : value? (dyadic a e) = some (a * (2 : ℚ) ^ e) := by
  rw [value?, h.unpack_dyadic]
  by_cases hzero : a = 0
  · subst hzero
    rw [normalize_zero, Int.cast_zero, zero_mul]
  · rw [h.normalize_eq hzero]
    dsimp only
    rw [apply_signOf, Int.cast_mul, Int.cast_pow, Int.cast_ofNat, mul_assoc, ← zpow_natCast,
      ← zpow_add₀ (by decide), add_sub_cancel]

/-! ### Operations -/

/-- **A sum that fits is exact.** -/
theorem IsExact.add_normalize (ha : IsExact a e) (hb : IsExact b e) (hsum : IsExact (a + b) e) :
    UnpackedFloat.add binary64 (UnpackedFloat.normalize binary64 a e .positive)
        (UnpackedFloat.normalize binary64 b e .positive) =
      UnpackedFloat.normalize binary64 (a + b) e .positive := by
  by_cases hzero : a = 0
  · subst hzero
    rw [normalize_zero, Int.zero_add]
    by_cases hzero' : b = 0
    · subst hzero'
      rfl
    · rw [hb.normalize_eq hzero']
      rfl
  by_cases hzero' : b = 0
  · subst hzero'
    rw [normalize_zero, Int.add_zero, ha.normalize_eq hzero]
    rfl
  -- both are written with as many zeros as the shorter of them needs
  have hmin : min (e - padding a.natAbs) (e - padding b.natAbs) =
      e - (max (padding a.natAbs) (padding b.natAbs) : Nat) := by omega
  have halign (c : Int) (n : Nat) (hn : padding c.natAbs ≤ n) :
      (decreaseExponent (c.natAbs <<< padding c.natAbs) (e - padding c.natAbs) (e - n)).1 =
        c.natAbs <<< n := by
    have hamount : (e - padding c.natAbs - (e - n)).toNat = n - padding c.natAbs := by omega
    rw [decreaseExponent]
    dsimp only
    rw [hamount, ← Nat.shiftLeft_add, Nat.add_sub_cancel' hn]
  rw [ha.normalize_eq hzero, hb.normalize_eq hzero', UnpackedFloat.add]
  dsimp only
  rw [hmin, halign a _ (Nat.le_max_left _ _), halign b _ (Nat.le_max_right _ _), apply_signOf,
    apply_signOf, ← Int.add_mul, hsum.normalize_mul_two_pow]

/-- Exact numbers are added without any error if their sum is exact. -/
theorem dyadic_add (ha : IsExact a e) (hb : IsExact b e) (hsum : IsExact (a + b) e) :
    dyadic a e + dyadic b e = dyadic (a + b) e := by
  change Float.ofModel (.pack (UnpackedFloat.add binary64 (dyadic a e).toModel.unpack
    (dyadic b e).toModel.unpack)) = _
  rw [ha.unpack_dyadic, hb.unpack_dyadic, ha.add_normalize hb hsum]
  rfl

/-- The sign of an exact number can be turned. -/
theorem neg_dyadic (h : IsExact a e) (hne : a ≠ 0) : -dyadic a e = dyadic (-a) e := by
  have hneg : IsExact (-a) e := ⟨by rw [Int.natAbs_neg]; exact h.natAbs_lt, h.bottom_le, h.le_top⟩
  have hsign : -signOf a = signOf (-a) := by
    rcases Int.lt_or_gt_of_ne hne with hlt | hgt
    · rw [signOf, signOf, if_pos hlt, if_neg (by omega)]
      rfl
    · rw [signOf, signOf, if_neg (by omega), if_pos (by omega)]
      rfl
  have hnormalize : UnpackedFloat.normalize binary64 (-a) e .positive =
      (UnpackedFloat.normalize binary64 a e .positive).neg := by
    rw [h.normalize_eq hne, hneg.normalize_eq (Int.neg_ne_zero.mpr hne), UnpackedFloat.neg, hsign]
    simp only [Int.natAbs_neg]
  change Float.ofModel (.pack (dyadic a e).toModel.unpack.neg) = _
  rw [h.unpack_dyadic, ← hnormalize]
  rfl

/-- Multiplying by one changes no exact number. -/
theorem dyadic_mul_one (h : IsExact a e) :
    dyadic a e * .ofBits 0x3FF0000000000000 = dyadic a e := by
  have hone : (Float.ofBits 0x3FF0000000000000).toModel.unpack =
      .finite .positive (2 ^ 52) (-52) (by decide) := rfl
  change Float.ofModel (.pack (UnpackedFloat.mul binary64 (dyadic a e).toModel.unpack
    (Float.ofBits 0x3FF0000000000000).toModel.unpack)) = _
  rw [h.unpack_dyadic, hone, dyadic]
  by_cases hzero : a = 0
  · subst hzero
    rfl
  · have hsign : signOf a * .positive = signOf a := by cases signOf a <;> rfl
    rw [h.normalize_eq hzero, UnpackedFloat.mul, hsign, ← Nat.shiftLeft_eq]
    exact congrArg (fun f => Float.ofModel (.pack f))
      (roundWithAccuracy_shiftLeft _ (h.log2_eq hzero) h.bottom_le_sub _ 52)

/-- The quotient by two comes with one bit more than it needs. -/
theorem divCore_two {m : Nat} (hfull : m.log2 = 52) (he : -1072 ≤ e) :
    divCore binary64 m e (2 ^ 52) (-51) = (m <<< 1, e - 2, .exact) := by
  have htarget : min (e - -51) (binary64.targetExponent
      (totalExponent m e - totalExponent (2 ^ 52) (-51))) = e - 2 := by
    rw [totalExponent, totalExponent, hfull, Nat.log2_two_pow]
    simp only [Format.targetExponent, Format.minExponent, Format.mantissaBits]
    omega
  have hamount : (e - -51 - (e - 2)).toNat = 53 := by omega
  have hshift : m <<< 53 = (m <<< 1) * 2 ^ 52 := by
    rw [Nat.shiftLeft_eq, Nat.shiftLeft_eq, Nat.mul_assoc, ← Nat.pow_add]
  rw [divCore, htarget, hamount, hshift, Nat.mul_div_cancel _ (Nat.two_pow_pos 52),
    Nat.mul_mod_left, accuracyOfFraction, if_pos rfl]

end Exact

/-! ### Integers and halves -/

/-- Integers below 2 ^ 53 are exact. -/
theorem IsExact.ofInteger {a : Int} (h : a.natAbs < 2 ^ 53) : IsExact a 0 :=
  ⟨h, by decide, by decide⟩

/-- Halves of integers below 2 ^ 53 are exact. -/
theorem IsExact.ofHalves {a : Int} (h : a.natAbs < 2 ^ 53) : IsExact a (-1) :=
  ⟨h, by decide, by decide⟩

/-- Small natural numbers become the doubles that stand for them. -/
theorem ofNat_eq_dyadic {n : Nat} (h : n < 2 ^ 53) : Float.ofNat n = dyadic n 0 := by
  have hscientific : Float.ofNat n = n.toUInt64.toFloat * .ofBits 0x3FF0000000000000 := by
    change Float.ofScientific n false 0 = _
    rw [Float.ofScientific, dif_pos ⟨h, by decide⟩]
    rfl
  have hinteger : n.toUInt64.toFloat = dyadic n 0 := by
    have hn : n.toUInt64.toNat = n := by
      rw [Nat.toUInt64_eq, UInt64.toNat_ofNat', Nat.mod_eq_of_lt (by omega)]
    change dyadic n.toUInt64.toNat 0 = _
    rw [hn]
  have hexact : IsExact n 0 := .ofInteger (by rwa [Int.natAbs_natCast])
  rw [hscientific, hinteger, dyadic_mul_one hexact]

/-- Small integers become the doubles that stand for them. -/
theorem ofInt_eq_dyadic {a : Int} (h : a.natAbs < 2 ^ 53) : Float.ofInt a = dyadic a 0 := by
  cases a with
  | ofNat n => exact ofNat_eq_dyadic h
  | negSucc n =>
      have hn : n + 1 < 2 ^ 53 := h
      have hexact : IsExact (n + 1 : Nat) 0 := .ofInteger hn
      change -Float.ofNat (n + 1) = _
      rw [ofNat_eq_dyadic hn, neg_dyadic hexact (Int.natCast_ne_zero.mpr n.succ_ne_zero)]
      rfl

/-- Half of a small integer is a double exactly. -/
theorem half_dyadic {a : Int} (h : a.natAbs < 2 ^ 53) : dyadic a 0 / 2 = dyadic a (-1) := by
  have htwo : (2 : Float).toModel.unpack = .finite .positive (2 ^ 52) (-51) (by decide) := by
    change (Float.ofNat 2).toModel.unpack = _
    rw [ofNat_eq_dyadic (by decide), (IsExact.ofInteger (by decide)).unpack_dyadic]
    rfl
  change Float.ofModel (.pack (UnpackedFloat.div binary64 (dyadic a 0).toModel.unpack
    (2 : Float).toModel.unpack)) = _
  rw [(IsExact.ofInteger h).unpack_dyadic, htwo, dyadic]
  by_cases hzero : a = 0
  · subst hzero
    rfl
  · have hfull := (IsExact.ofInteger h).log2_eq hzero
    have hpadding := padding_le a.natAbs
    have hsign : signOf a / .positive = signOf a := by cases signOf a <;> rfl
    have hexponent : 0 - (padding a.natAbs : Int) - 2 = -1 - padding a.natAbs - (1 : Nat) := by
      omega
    rw [(IsExact.ofInteger h).normalize_eq hzero, (IsExact.ofHalves h).normalize_eq hzero,
      UnpackedFloat.div, divCore_two hfull (by omega), hsign]
    dsimp only
    rw [hexponent, roundWithAccuracy_shiftLeft _ hfull (IsExact.ofHalves h).bottom_le_sub]

end PcAssembly.Binary64
