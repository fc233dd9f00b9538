import PcAssembly.Number.Integer
import PcAssembly.Number.Shortest

/-! # Doubles written out

    Three written forms of a double, all exact.  The plain form has the
    shortest digits and no exponent; the data form has the same digits, keeps
    a fraction in sight and turns to an exponent for very large and very
    small numbers; the fixed form rounds the exact binary value to a given
    number of places, a half going to the even neighbour. -/

namespace PcAssembly.Binary64

open PcAssembly.Number

/-- A run of zeros. -/
def zeros (count : Nat) : List Char :=
  List.replicate count '0'

/-- Digits with a point after the first `places` of them, or with zeros on the
    side where digits are missing. -/
def positional (digits : List Char) (places : Int) : List Char :=
  if places ≤ 0 then '0' :: '.' :: zeros places.natAbs ++ digits
  else if digits.length ≤ places.toNat then
    digits ++ zeros (places.toNat - digits.length)
  else digits.take places.toNat ++ '.' :: digits.drop places.toNat

/-- A minus sign if `negative`, then the text. -/
def signedText (negative : Bool) (s : List Char) : List Char :=
  if negative then '-' :: s else s

/-- The shortest digits without an exponent and without a needless point. -/
def plainText (x : Float) : String :=
  String.ofList <| match view x with
    | .nan => "NaN".toList
    | .infinite negative => signedText negative "inf".toList
    | .finite negative 0 _ => signedText negative ['0']
    | .finite negative mantissa exponent =>
        let decimal := shortest mantissa exponent
        let digits := natDigits decimal.digits
        signedText negative (positional digits (digits.length + decimal.exponent))

/-- The bounds of the positional part of the data form: the point stands after
    at most `widest` digits and before at most `deepest` zeros. -/
structure PositionalRange where
  widest : Int
  deepest : Int

/-- Data files write up to sixteen digits before the point and up to four
    zeros after it positionally. -/
def dataRange : PositionalRange := ⟨16, 4⟩

/-- Shortest digits with at least one digit on each side of the point, or one
    digit before the point and an exponent outside `dataRange`. -/
def dataDigits (decimal : Decimated) : List Char :=
  let digits := natDigits decimal.digits
  let places := digits.length + decimal.exponent
  if 0 ≤ decimal.exponent ∧ places ≤ dataRange.widest then
    positional digits places ++ ['.', '0']
  else if -dataRange.deepest - 1 < places ∧ places ≤ dataRange.widest then
    positional digits places
  else
    let mark := 'e' :: intDigits (places - 1)
    match digits with
    | [] => mark
    | [digit] => digit :: mark
    | digit :: rest => digit :: '.' :: rest ++ mark

/-- The data form of a double; there is none for infinities and NaN. -/
def dataText? (x : Float) : Option (List Char) :=
  match view x with
  | .finite negative 0 _ => some (signedText negative ['0', '.', '0'])
  | .finite negative mantissa exponent =>
      some (signedText negative (dataDigits (shortest mantissa exponent)))
  | _ => none

/-- A quotient rounded to the nearest whole number, a half to the even one. -/
def divideHalfEven (numerator denominator : Nat) : Nat :=
  let quotient := numerator / denominator
  let remainder := numerator % denominator
  if denominator < 2 * remainder ∨ (denominator = 2 * remainder ∧ quotient % 2 = 1) then
    quotient + 1
  else quotient

/-- A whole number of units of `10 ^ -places`, with a point. -/
def fixedDigits (places units : Nat) : List Char :=
  let digits := natDigits units
  let padded := zeros (places + 1 - digits.length) ++ digits
  let whole := padded.length - places
  padded.take whole ++ '.' :: padded.drop whole

/-- The exact value rounded to `places` places.  The sign is kept even where
    the digits come out as zero. -/
def fixedText (places : Nat) (x : Float) : String :=
  String.ofList <| match view x with
    | .nan => "NaN".toList
    | .infinite negative => signedText negative "inf".toList
    | .finite negative mantissa exponent =>
        let (numerator, denominator) := scaled mantissa exponent (-places)
        signedText negative (fixedDigits places (divideHalfEven numerator denominator))

end PcAssembly.Binary64
