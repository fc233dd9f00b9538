import PcAssembly.Decimal.Basic

/-! # Reading amounts

    An amount is a sign, digits and at most one point, with at least one
    digit; underscores may stand anywhere after the first digit.  A whole
    part beyond 96 bits is refused.  Fraction digits that no longer fit are
    cut off, and the first of them rounds.  A text that is no plain amount may
    still be one with a power of ten after it. -/

namespace PcAssembly.Decimal

open PcAssembly.Number

/-- Coefficient and scale of an unsigned amount while it is read. -/
structure Reading where
  coefficient : Nat
  scale : Nat
  deriving DecidableEq, Repr

/-- One more in the last place.  A coefficient that outgrows its bound gives
    up a place, and there must be one to give up. -/
def Reading.roundUp? (r : Reading) : Option Reading :=
  if r.coefficient + 1 < coefficientBound then some { r with coefficient := r.coefficient + 1 }
  else if r.scale = 0 then none
  else some { coefficient := (r.coefficient + 5) / 10, scale := r.scale - 1 }

/-- The value of a decimal digit. -/
def digit? (c : Char) : Option Nat :=
  if c.isDigit then some (c.toNat - '0'.toNat) else none

/-- The digits after the point.  A digit for which there is no room ends the
    reading: it only rounds, and what follows it must still be digits. -/
def readFraction? (started : Bool) (r : Reading) : List Char → Option Reading
  | [] => if started then some r else none
  | c :: rest =>
      if c = '_' then
        if started then readFraction? started r rest else none
      else do
        let d ← digit? c
        let next := 10 * r.coefficient + d
        if r.scale < maxScale ∧ next < coefficientBound then
          readFraction? true { coefficient := next, scale := r.scale + 1 } rest
        else if rest.all fun c => c.isDigit || c = '_' then
          if 5 ≤ d then r.roundUp? else some r
        else none

/-- The digits before the point, then those after it. -/
def readWhole? (started : Bool) (coefficient : Nat) : List Char → Option Reading
  | [] => if started then some ⟨coefficient, 0⟩ else none
  | c :: rest =>
      if c = '_' then
        if started then readWhole? started coefficient rest else none
      else if c = '.' then readFraction? started ⟨coefficient, 0⟩ rest
      else do
        let d ← digit? c
        let next := 10 * coefficient + d
        if next < coefficientBound then readWhole? true next rest else none

/-- A plain amount: a sign, at most one, then digits with at most one point. -/
def ofPlain? (s : List Char) : Option Decimal := do
  let (negative, unsigned) := match s with
    | '-' :: rest => (true, rest)
    | '+' :: rest => (false, rest)
    | _ => (false, s)
  let r ← readWhole? false 0 unsigned
  ofParts? (if negative then -(r.coefficient : Int) else r.coefficient) r.scale

/-- An exponent of ten: digits that fit in 32 bits, after at most one plus
    sign. -/
def exponent? (s : List Char) : Option Nat := do
  let digits := match s with
    | '+' :: rest => rest
    | _ => s
  let n ← natOfDigits? digits
  if n < UInt32.size then some n else none

/-- The amount times a power of ten.  Places are given up while there are
    any, then the coefficient grows. -/
def scaleUp? (x : Decimal) (exponent : Nat) : Option Decimal :=
  if exponent ≤ x.scale then ofParts? x.coefficient (x.scale - exponent)
  else if exponent ≤ maxScale then
    ofParts? (x.coefficient * Nat.pow 10 (exponent - x.scale)) 0
  else none

/-- The amount divided by a power of ten: more places. -/
def scaleDown? (x : Decimal) (exponent : Nat) : Option Decimal :=
  ofParts? x.coefficient (x.scale + exponent)

/-- An amount with a power of ten: a plain amount, the first `e` of either
    case, and the exponent. -/
def ofScientific? (s : List Char) : Option Decimal := do
  let base := s.takeWhile fun c => c != 'e' && c != 'E'
  match s.drop base.length with
  | [] => none
  | _ :: '-' :: rest => do scaleDown? (← ofPlain? base) (← exponent? rest)
  | _ :: rest => do scaleUp? (← ofPlain? base) (← exponent? rest)

/-- The amount that a text states. -/
def ofDigits? (s : List Char) : Option Decimal :=
  ofPlain? s <|> ofScientific? s

/-- The amount that a string states. -/
def ofText? (s : String) : Option Decimal :=
  ofDigits? s.toList

/-- The amount with the shortest digits of a double. -/
def ofFloat? (x : Float) : Option Decimal :=
  ofText? (Binary64.plainText x)

end PcAssembly.Decimal
