import PcAssembly.Decimal.Basic

/-! # Adding amounts

    Zero gives way: adding it returns the other amount with its own places.
    Otherwise the sum has the places of the finer amount, unless its
    coefficient would not fit; then as few places as possible are given up
    and the sum is rounded, a half to the even neighbour.  A sum that does
    not even fit without places has no amount: that is an overflow. -/

namespace PcAssembly.Decimal

/-- The coefficient at `drop` fewer places, a half rounded to even. -/
def roundedCoefficient (coefficient : Int) (drop : Nat) : Int :=
  let magnitude := Binary64.divideHalfEven coefficient.natAbs (Nat.pow 10 drop)
  if coefficient < 0 then -(magnitude : Int) else magnitude

/-- The amount of an exact coefficient at this scale, with as many of its
    places as fit. -/
def fit? (coefficient : Int) (scale : Nat) : Option Decimal :=
  (List.range (scale + 1)).findSome? fun drop =>
    ofParts? (roundedCoefficient coefficient drop) (scale - drop)

/-- The coefficient of the amount counted at a finer scale. -/
def coefficientAt (x : Decimal) (scale : Nat) : Int :=
  x.coefficient * Nat.pow 10 (scale - x.scale)

/-- The sum of two amounts; none if it overflows. -/
def add? (x y : Decimal) : Option Decimal :=
  if x.coefficient = 0 then some y
  else if y.coefficient = 0 then some x
  else
    let scale := max x.scale y.scale
    fit? (x.coefficientAt scale + y.coefficientAt scale) scale

/-- The sum of a list of amounts, added to zero from the left. -/
def sum? (xs : List Decimal) : Option Decimal :=
  xs.foldlM add? zero

end PcAssembly.Decimal
