import PcAssembly.Number.Binary64

/-! # Doubles by their bits

    Scores are compared by their bit patterns, so a score is kept as its
    sixty-four bits.  This tells NaNs apart: one with the sign bit comes
    before minus infinity, one without it after infinity.

    Arithmetic gives the double nearest to the exact result.  Where there is
    no such double it gives a NaN, and which one, its sign included, is left
    to the machine: machines differ in it. -/

namespace PcAssembly

/-- A double, by the bits it is stored in. -/
structure Double where
  bits : UInt64
  deriving DecidableEq, Repr, Inhabited

namespace Double

/-- What is calculated with; all NaNs become one. -/
def toFloat (x : Double) : Float := Float.ofBits x.bits

/-- A result of a calculation. -/
def ofFloat (x : Float) : Double := ⟨x.toBits⟩

/-- Neither finite nor infinite. -/
def isNan (x : Double) : Bool :=
  decide (Binary64.viewOfBits x.bits.toNat = .nan)

/-- The place of a double in the total order of bit patterns: patterns of
    non-negative sign count up from zero, the others down from minus one. -/
def orderKey (x : Double) : Int :=
  let bits := x.bits.toNat
  if bits < Binary64.signBit then bits else (Binary64.signBit : Int) - 1 - bits

/-- The NaN with the sign bit and the first bit of the fraction. -/
def signedNan : Double := ⟨0xFFF8000000000000⟩

end Double

/-- What scores are put together with. -/
inductive Arithmetic where
  | sum
  | product
  deriving DecidableEq, Repr

/-- The nearest double to the exact result. -/
def Arithmetic.nearest : Arithmetic → Float → Float → Float
  | .sum, x, y => x + y
  | .product, x, y => x * y

/-- The NaNs that a machine gives for operands without a result. -/
structure Machine where
  nan : Arithmetic → Double → Double → Double
  isNan_nan : ∀ operation x y, (nan operation x y).isNan = true

namespace Machine

/-- The result of an operation. -/
def result (machine : Machine) (operation : Arithmetic) (x y : Double) : Double :=
  let nearest := Double.ofFloat (operation.nearest x.toFloat y.toFloat)
  if nearest.isNan then machine.nan operation x y else nearest

/-- The sum of two doubles. -/
def add (machine : Machine) : Double → Double → Double := machine.result .sum

/-- The product of two doubles. -/
def mul (machine : Machine) : Double → Double → Double := machine.result .product

/-- A machine that passes a NaN on, the first of two, and gives one with the
    sign bit where infinities leave no result. -/
def usual : Machine where
  nan _ x y := if x.isNan then x else if y.isNan then y else .signedNan
  isNan_nan _ x y := by
    split
    · assumption
    · split
      · assumption
      · rfl

end Machine

end PcAssembly
