/-! # Doubles taken apart

    Ratings, weights and written numbers are doubles, and three things about
    doubles have to be exact and open to proof: the integers a finite double
    is made of, rounding to a whole number, and rounding to the nearest
    double.  There is one NaN here; where doubles are compared by their bit
    patterns, NaNs are told apart by theirs. -/

namespace PcAssembly.Binary64

/-- The sign bit of a pattern. -/
def signBit : Nat := 0x8000000000000000

/-- The bit above the fraction, which a mantissa has and a pattern leaves
    out. -/
def hiddenBit : Nat := 0x10000000000000

/-- What a bit pattern stands for.  A finite double is its sign and
    `mantissa * 2 ^ exponent`. -/
inductive View where
  | finite (negative : Bool) (mantissa : Nat) (exponent : Int)
  | infinite (negative : Bool)
  | nan
  deriving DecidableEq, Repr

/-- The sign, exponent and fraction fields of a pattern, read as a number. -/
def viewOfBits (bits : Nat) : View :=
  let negative := decide (signBit ≤ bits)
  let field : Nat := bits / hiddenBit % 2048
  let fraction := bits % hiddenBit
  if field = 2047 then
    if fraction = 0 then .infinite negative else .nan
  else if field = 0 then .finite negative fraction (-1074)
  else .finite negative (hiddenBit + fraction) ((field : Int) - 1075)

/-- What a double stands for. -/
def view (x : Float) : View :=
  viewOfBits x.toBits.toNat

/-- Neither infinite nor NaN. -/
def isFinite (x : Float) : Bool :=
  match view x with
  | .finite .. => true
  | _ => false

/-- The double with the sign turned if `negative`. -/
def withSign (negative : Bool) (x : Float) : Float :=
  if negative then -x else x

/-- The nearest whole number; a half goes away from zero.  A double without
    fraction bits is its own nearest. -/
def roundHalfAway (x : Float) : Float :=
  match view x with
  | .finite negative mantissa exponent =>
      if 0 ≤ exponent then x
      else
        let unit := Nat.pow 2 exponent.natAbs
        withSign negative (Float.ofNat ((2 * mantissa + unit) / (2 * unit)))
  | _ => x

/-- A power of ten, to the nearest double. -/
def powerOfTen (exponent : Nat) : Float :=
  Float.ofScientific 1 false exponent

/-- The larger of two doubles that are no NaN. -/
def larger (x y : Float) : Float :=
  if x < y then y else x

end PcAssembly.Binary64
