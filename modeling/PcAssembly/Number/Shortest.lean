import PcAssembly.Number.Binary64

/-! # The fewest digits that read back

    A finite double other than zero stands for every real that rounds to it.
    Among the decimals in that interval the one with the fewest digits is
    written, and of several with the same number of digits the nearest.  All
    comparisons are between integers: the value and the two ends of its
    interval are put on one binary scale, and a decimal is a whole number of
    steps of a power of ten. -/

namespace PcAssembly.Binary64

/-- A positive decimal, `digits * 10 ^ exponent`; the last digit is not
    zero. -/
structure Decimated where
  digits : Nat
  exponent : Int
  deriving DecidableEq, Repr

/-- A positive rational with a power of two and a power of ten moved to the
    side where it is whole: `n * 2 ^ binary / 10 ^ decimal` as a fraction. -/
def scaled (n : Nat) (binary decimal : Int) : Nat × Nat :=
  (n * Nat.pow 2 binary.toNat * Nat.pow 10 (-decimal).toNat,
   Nat.pow 2 (-binary).toNat * Nat.pow 10 decimal.toNat)

/-- The largest `e` with `10 ^ e ≤ mantissa * 2 ^ exponent`, for a positive
    mantissa: an estimate from the bit length, put right by one step. -/
def decimalMagnitude (mantissa : Nat) (exponent : Int) : Int :=
  let estimate := ((mantissa.log2 : Int) + exponent) * 30103 / 100000
  let reached (e : Int) : Bool :=
    let (value, unit) := scaled mantissa exponent e
    unit ≤ value
  if reached (estimate + 1) then estimate + 1
  else if reached estimate then estimate
  else estimate - 1

/-- The interval of reals that round to a double, in quarters of its last
    place: the distances down and up, and whether the ends belong to it. -/
structure RoundingInterval where
  below : Nat
  above : Nat
  closed : Bool

/-- Below a power of two the neighbour is twice as near, except at the bottom
    of the range; ties go to the even mantissa. -/
def roundingInterval (mantissa : Nat) (exponent : Int) : RoundingInterval where
  below := if mantissa = hiddenBit ∧ -1074 < exponent then 1 else 2
  above := 2
  closed := mantissa % 2 = 0

/-- The multiple of `10 ^ step` nearest to the value that still rounds to the
    double, if there is one; an exact tie goes to the even multiple. -/
def nearestOnGrid? (mantissa : Nat) (exponent step : Int) : Option Nat :=
  let interval := roundingInterval mantissa exponent
  let (value, unit) := scaled (4 * mantissa) (exponent - 2) step
  let (quarter, _) := scaled 1 (exponent - 2) step
  let low := value - interval.below * quarter
  let high := value + interval.above * quarter
  let inside (multiple : Nat) : Bool :=
    let point := multiple * unit
    0 < multiple &&
      if interval.closed then low ≤ point && point ≤ high
      else low < point && point < high
  let floor := value / unit
  let remainder := value % unit
  let upper := unit < 2 * remainder || (unit = 2 * remainder && floor % 2 = 1)
  let (first, second) := if upper then (floor + 1, floor) else (floor, floor + 1)
  if inside first then some first
  else if inside second then some second
  else none

/-- The number without its trailing zeros, and how many there were. -/
def stripZeros : Nat → Nat → Nat × Nat
  | 0, n => (n, 0)
  | fuel + 1, n =>
      if n ≠ 0 ∧ n % 10 = 0 then
        let (stripped, count) := stripZeros fuel (n / 10)
        (stripped, count + 1)
      else (n, 0)

/-- The decimal with the fewest digits that reads back as
    `mantissa * 2 ^ exponent`; seventeen digits always do. -/
def shortest (mantissa : Nat) (exponent : Int) : Decimated :=
  let magnitude := decimalMagnitude mantissa exponent
  let found := (List.range 17).findSome? fun (places : Nat) =>
    let step := magnitude - places
    (nearestOnGrid? mantissa exponent step).map fun digits => (digits, step)
  let (digits, step) := found.getD (0, 0)
  let (stripped, zeros) := stripZeros 20 digits
  { digits := stripped, exponent := step + zeros }

end PcAssembly.Binary64
