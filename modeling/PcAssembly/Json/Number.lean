import PcAssembly.Json.Basic

/-! # Numbers of a data text

    A number literal is a sign, digits without a leading zero, and possibly a
    fraction and an exponent.  The double of a literal is made of a
    significand, the longest run of its leading digits that fits in 64 bits,
    and the power of ten that the digits after it and the exponent leave: the
    significand is rounded to a double and multiplied or divided by the
    power. -/

namespace PcAssembly.Json.Number

open PcAssembly.Number

/-- A number as it is written. -/
structure Literal where
  negative : Bool
  whole : List Char
  fraction : List Char
  exponent : Option Int
  deriving DecidableEq, Repr

/-- The leading digits of a text, and the rest of it. -/
def spanDigits (s : List Char) : List Char × List Char :=
  (s.takeWhile Char.isDigit, s.dropWhile Char.isDigit)

/-- The digits before the point: one at least, and no zero in front of
    another. -/
def whole? (s : List Char) : Option (List Char × List Char) :=
  match spanDigits s with
  | ([], _) => none
  | ('0' :: _ :: _, _) => none
  | (digits, rest) => some (digits, rest)

/-- The digits after a point, if there is one. -/
def fraction? : List Char → Option (List Char × List Char)
  | '.' :: rest =>
      match spanDigits rest with
      | ([], _) => none
      | (digits, rest) => some (digits, rest)
  | s => some ([], s)

/-- The sign of an exponent. -/
def exponentSign : List Char → Bool × List Char
  | '-' :: rest => (true, rest)
  | '+' :: rest => (false, rest)
  | s => (false, s)

/-- The exponent, if there is one. -/
def exponent? (s : List Char) : Option (Option Int × List Char) :=
  match s with
  | c :: rest =>
      if c = 'e' ∨ c = 'E' then
        let (negative, unsigned) := exponentSign rest
        match spanDigits unsigned with
        | ([], _) => none
        | (digits, rest) =>
            let value : Int := Nat.ofDigitChars 10 digits 0
            some (some (if negative then -value else value), rest)
      else some (none, s)
  | [] => some (none, s)

/-- A number literal at the start of a text, and the rest of it. -/
def literal? (s : List Char) : Option (Literal × List Char) := do
  let (negative, unsigned) := match s with
    | '-' :: rest => (true, rest)
    | _ => (false, s)
  let (whole, rest) ← whole? unsigned
  let (fraction, rest) ← fraction? rest
  let (exponent, rest) ← exponent? rest
  return ({ negative, whole, fraction, exponent }, rest)

/-- Takes digits into a significand while it fits in 64 bits; also says how
    many were taken. -/
def takeDigits (significand : Nat) : List Char → Nat × Nat
  | [] => (significand, 0)
  | c :: rest =>
      let next := 10 * significand + (c.toNat - '0'.toNat)
      if next < UInt64.size then
        let (result, count) := takeDigits next rest
        (result, count + 1)
      else (significand, 0)

/-- Significand and power of ten of a literal. -/
def Literal.parts (l : Literal) : Nat × Int :=
  let (significand, taken) := takeDigits 0 l.whole
  let (significand, fractional) := takeDigits significand l.fraction
  (significand, (l.whole.length : Int) - taken - fractional + l.exponent.getD 0)

/-- The largest power of ten with a finite double. -/
def maxPower : Nat := 308

/-- A significand times a power of ten; none if that is infinite.  A divisor
    beyond the largest power is applied in two steps. -/
def floatOfParts? (significand : Nat) (power : Int) : Option Float :=
  let x := (UInt64.ofNat significand).toFloat
  let by_ (n : Nat) := Binary64.powerOfTen n
  if significand = 0 then some x
  else if 0 ≤ power then
    if power.natAbs ≤ maxPower then
      let product := x * by_ power.natAbs
      if Binary64.isFinite product then some product else none
    else none
  else if power.natAbs ≤ maxPower then some (x / by_ power.natAbs)
  else if power.natAbs ≤ 2 * maxPower then
    some (x / by_ maxPower / by_ (power.natAbs - maxPower))
  else some 0

/-- The number that a literal stands for.  A negative zero is a double. -/
def ofLiteral (l : Literal) : Number :=
  let value := Nat.ofDigitChars 10 l.whole 0
  let isWhole := l.fraction.isEmpty && l.exponent.isNone
  let fitsBelowZero := decide (0 < value ∧ Int64.minValue.toInt ≤ -(value : Int))
  if isWhole && !l.negative && decide (value < UInt64.size) then .integer value
  else if isWhole && l.negative && fitsBelowZero then .integer (-(value : Int))
  else
    let (significand, power) := l.parts
    match floatOfParts? significand power with
    | some x => .double (Binary64.withSign l.negative x)
    | none => .beyondRange

end PcAssembly.Json.Number
