import Mathlib
import PcAssembly.Number.Double

/-! # NaNs and machines

    A NaN among the operands leaves a NaN as the result, and which one is up to
    the machine.  Two machines that start from the same doubles therefore go
    through the same doubles, until both come to a NaN, and through NaNs alone
    from there on (`Machine.agreesWith_result`). -/

namespace PcAssembly

open Float.Model (UnpackedFloat)
open Float.Model.Format (binary64)

namespace Binary64

/-- The exponent field of a pattern. -/
theorem toNat_unpackExponent (bits : UInt64) :
    (@UnpackedFloat.unpackExponent binary64 bits.toBitVec).toNat =
      bits.toNat / hiddenBit % 2048 := by
  simp [UnpackedFloat.unpackExponent, Nat.shiftRight_eq_div_pow, hiddenBit]

/-- The fraction of a pattern. -/
theorem toNat_unpackMantissa (bits : UInt64) :
    (@UnpackedFloat.unpackMantissa binary64 bits.toBitVec).toNat = bits.toNat % hiddenBit := by
  simp [UnpackedFloat.unpackMantissa, hiddenBit]

end Binary64

namespace Double

open Binary64

/-- The exponent field of a NaN is all ones, and its fraction is not zero. -/
theorem isNan_iff_fields {x : Double} : x.isNan = true ↔
    x.bits.toNat / hiddenBit % 2048 = 2047 ∧ x.bits.toNat % hiddenBit ≠ 0 := by
  rw [isNan, decide_eq_true_iff, viewOfBits]
  split
  · split <;> simp_all
  · split <;> simp_all

/-- The NaNs are the patterns that unpack to no number. -/
theorem unpack_eq_notANumber_iff {x : Double} :
    UnpackedFloat.unpack binary64 x.bits.toBitVec = .notANumber ↔ x.isNan = true := by
  have hones : @UnpackedFloat.unpackExponent binary64 x.bits.toBitVec = -1#_ ↔
      x.bits.toNat / hiddenBit % 2048 = 2047 := by
    rw [← toNat_unpackExponent, ← BitVec.toNat_inj]
    rfl
  have hzero : @UnpackedFloat.unpackMantissa binary64 x.bits.toBitVec = 0#_ ↔
      x.bits.toNat % hiddenBit = 0 := by
    rw [← toNat_unpackMantissa, ← BitVec.toNat_inj]
    rfl
  rw [isNan_iff_fields, ← hones, Ne, ← hzero]
  fun_cases UnpackedFloat.unpack binary64 x.bits.toBitVec with
  | case1 _ _ _ _ _ hzero => exact iff_of_false nofun fun h => h.2 hzero
  | case2 _ _ hones hzero => exact iff_of_true rfl ⟨hones, hzero⟩
  | case3 _ _ _ _ hones => exact iff_of_false nofun fun h => hones h.1
  | case4 _ _ _ _ _ hones => exact iff_of_false nofun fun h => hones h.1
  | case5 _ _ _ _ _ hones => exact iff_of_false nofun fun h => hones h.1

/-- A NaN is calculated with as a NaN. -/
theorem unpack_toFloat_of_isNan {x : Double} (h : x.isNan = true) :
    x.toFloat.toModel.unpack = .notANumber := by
  have hmodel : x.toFloat.toModel = .pack (.unpack binary64 x.bits.toBitVec) := rfl
  rw [hmodel, unpack_eq_notANumber_iff.mpr h]
  exact UnpackedFloat.unpack_packedNaN

/-- Nothing but a NaN comes of a NaN. -/
theorem isNan_nearest {operation : Arithmetic} {x y : Float}
    (h : x.toModel.unpack = .notANumber ∨ y.toModel.unpack = .notANumber) :
    (ofFloat (operation.nearest x y)).isNan = true := by
  have hcombine (combine : UnpackedFloat → UnpackedFloat → UnpackedFloat)
      (hleft : ∀ u, combine .notANumber u = .notANumber)
      (hright : ∀ u, combine u .notANumber = .notANumber) :
      combine x.toModel.unpack y.toModel.unpack = .notANumber := by
    rcases h with h | h
    · rw [h]
      exact hleft _
    · rw [h]
      exact hright _
  have hresult : (operation.nearest x y).toModel = .pack .notANumber := by
    cases operation with
    | sum =>
        exact congrArg Float.Model.pack
          (hcombine (.add binary64) (fun _ => rfl) fun u => by cases u <;> rfl)
    | product =>
        exact congrArg Float.Model.pack
          (hcombine (.mul binary64) (fun _ => rfl) fun u => by cases u <;> rfl)
  refine unpack_eq_notANumber_iff.mp ?_
  change (operation.nearest x y).toModel.unpack = _
  rw [hresult]
  exact UnpackedFloat.unpack_packedNaN

/-- Two doubles are the same, or both are NaNs. -/
def AgreesWith (x y : Double) : Prop := x = y ∨ x.isNan = true ∧ y.isNan = true

theorem AgreesWith.refl (x : Double) : x.AgreesWith x := Or.inl rfl

/-- A double that is a number agrees with no other. -/
theorem AgreesWith.eq {x y : Double} (h : x.AgreesWith y) (hx : x.isNan = false) : x = y := by
  rcases h with heq | ⟨hnan, -⟩
  · exact heq
  · exact nomatch hx.symm.trans hnan

end Double

namespace Machine

variable (machine other : Machine) {operation : Arithmetic} {x y x' y' : Double}

/-- A NaN among the operands leaves a NaN. -/
theorem isNan_result (h : x.isNan = true ∨ y.isNan = true) :
    (machine.result operation x y).isNan = true := by
  have hnearest : (Double.ofFloat (operation.nearest x.toFloat y.toFloat)).isNan = true :=
    Double.isNan_nearest (h.imp Double.unpack_toFloat_of_isNan Double.unpack_toFloat_of_isNan)
  rw [result, if_pos hnearest]
  exact machine.isNan_nan operation x y

/-- **Machines that agree on the operands agree on the result.** -/
theorem agreesWith_result (hx : x.AgreesWith x') (hy : y.AgreesWith y') :
    (machine.result operation x y).AgreesWith (other.result operation x' y') := by
  rcases hx with rfl | ⟨hx, hx'⟩
  · rcases hy with rfl | ⟨hy, hy'⟩
    · rw [result, result]
      split
      · exact Or.inr ⟨machine.isNan_nan operation x y, other.isNan_nan operation x y⟩
      · exact Or.inl rfl
    · exact Or.inr ⟨isNan_result machine (Or.inr hy), isNan_result other (Or.inr hy')⟩
  · exact Or.inr ⟨isNan_result machine (Or.inl hx), isNan_result other (Or.inl hx')⟩

theorem agreesWith_add (hx : x.AgreesWith x') (hy : y.AgreesWith y') :
    (machine.add x y).AgreesWith (other.add x' y') :=
  agreesWith_result machine other hx hy

theorem agreesWith_mul (hx : x.AgreesWith x') (hy : y.AgreesWith y') :
    (machine.mul x y).AgreesWith (other.mul x' y') :=
  agreesWith_result machine other hx hy

/-- Machines agree on a sum that they start alike. -/
theorem agreesWith_foldl_add (scores : List Double) (h : x.AgreesWith y) :
    (scores.foldl machine.add x).AgreesWith (scores.foldl other.add y) := by
  induction scores generalizing x y with
  | nil => exact h
  | cons score scores ih => exact ih (agreesWith_add machine other h (.refl score))

end Machine

end PcAssembly
