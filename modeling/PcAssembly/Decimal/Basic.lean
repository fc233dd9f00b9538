import PcAssembly.Number.DoubleText

/-! # Money amounts

    A price is a decimal: a whole coefficient of at most 96 bits, counted in
    units of `10 ^ -scale`, with at most 28 places.  The scale is part of the
    amount, so `12.50` stays `12.50`; two amounts are compared by value, so
    `12.50` and `12.5` cost the same.  The sign belongs to the coefficient,
    hence zero has none. -/

namespace PcAssembly

/-- An amount of `coefficient * 10 ^ -scale`. -/
structure Decimal where
  coefficient : Int
  scale : Nat
  coefficient_lt : coefficient.natAbs < 0x1000000000000000000000000
  scale_le : scale ≤ 28
  deriving DecidableEq

namespace Decimal

open PcAssembly.Number

/-- The bound of every coefficient: it has 96 bits. -/
def coefficientBound : Nat := 0x1000000000000000000000000

/-- The largest number of places. -/
def maxScale : Nat := 28

/-- The amount with this coefficient and scale, if both are in range. -/
def ofParts? (coefficient : Int) (scale : Nat) : Option Decimal :=
  if h : coefficient.natAbs < 0x1000000000000000000000000 ∧ scale ≤ 28 then
    some ⟨coefficient, scale, h.1, h.2⟩
  else none

/-- The amount of zero, without places. -/
def zero : Decimal := ⟨0, 0, by decide, by decide⟩

instance : Inhabited Decimal := ⟨zero⟩

/-- A whole amount. -/
def ofInt64 (n : Int64) : Decimal where
  coefficient := n.toInt
  scale := 0
  coefficient_lt := by
    have low := n.le_toInt
    have high := n.toInt_lt
    omega
  scale_le := by decide

/-- The first amount is at most the second, by value. -/
def le (x y : Decimal) : Bool :=
  x.coefficient * Nat.pow 10 y.scale ≤ y.coefficient * Nat.pow 10 x.scale

/-- The first amount is below the second, by value. -/
def lt (x y : Decimal) : Bool :=
  x.coefficient * Nat.pow 10 y.scale < y.coefficient * Nat.pow 10 x.scale

/-- All places of the scale are written, at least one digit before them. -/
def digits (x : Decimal) : List Char :=
  let magnitude := x.coefficient.natAbs
  let unsigned :=
    if x.scale = 0 then natDigits magnitude
    else Binary64.fixedDigits x.scale magnitude
  Binary64.signedText (x.coefficient < 0) unsigned

/-- The amount as text. -/
def toText (x : Decimal) : String :=
  String.ofList x.digits

instance : ToString Decimal := ⟨toText⟩

/-- The double that stands for the amount.  With places, the whole part and
    the fraction are converted apart, added, and the sum is put back on the
    decimal grid; the sign comes last. -/
def toFloat (x : Decimal) : Float :=
  let magnitude := x.coefficient.natAbs
  let unsigned :=
    if x.scale = 0 then Float.ofNat magnitude
    else
      let power := Nat.pow 10 x.scale
      let whole := Float.ofNat (magnitude / power)
      let fraction := Float.ofNat (magnitude % power) / Float.ofNat power
      if magnitude % power = 0 then whole
      else
        let grid := Binary64.powerOfTen x.scale
        Binary64.roundHalfAway ((whole + fraction) * grid) / grid
  Binary64.withSign (x.coefficient < 0) unsigned

theorem ofParts?_self (x : Decimal) : ofParts? x.coefficient x.scale = some x :=
  dif_pos ⟨x.coefficient_lt, x.scale_le⟩

end Decimal

end PcAssembly
