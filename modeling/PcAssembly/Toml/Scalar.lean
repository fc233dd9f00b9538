import PcAssembly.Number.Integer
import PcAssembly.Toml.Basic

/-! # Words, numbers and moments of a document

    What stands without quotes is a word, a number, or a date or time.
    Underscores may stand between two digits of a number.  Numbers in another
    base have a mark and no sign, decimal ones no leading zero. -/

namespace PcAssembly.Toml.Scalar

open PcAssembly.Number

/-- The digits of a run in which single underscores may stand between
    digits. -/
def digitsOf? (isDigit : Char → Bool) : List Char → Option (List Char)
  | [] => none
  | [c] => if isDigit c then some [c] else none
  | c :: '_' :: rest =>
      if isDigit c then (digitsOf? isDigit rest).map (c :: ·) else none
  | c :: rest =>
      if isDigit c then (digitsOf? isDigit rest).map (c :: ·) else none

/-- Decimal digits without a leading zero. -/
def wholeDigits? (s : List Char) : Option (List Char) :=
  match digitsOf? Char.isDigit s with
  | some ('0' :: _ :: _) => none
  | digits => digits

/-- A sign, at most one, and what follows it. -/
def spanSign : List Char → Bool × List Char
  | '-' :: rest => (true, rest)
  | '+' :: rest => (false, rest)
  | s => (false, s)

/-- The number turned if `negative`. -/
def turned (negative : Bool) (n : Nat) : Int := if negative then -(n : Int) else n

/-- An integer. -/
def integer? (s : List Char) : Option Int :=
  match s with
  | '0' :: 'x' :: rest =>
      ((digitsOf? (fun c => (hexDigit? c).isSome) rest).bind natOfHex?).map Int.ofNat
  | '0' :: 'o' :: rest =>
      (digitsOf? (fun c => '0' ≤ c && c ≤ '7') rest).map fun digits =>
        (Nat.ofDigitChars 8 digits 0 : Nat)
  | '0' :: 'b' :: rest =>
      (digitsOf? (fun c => c = '0' || c = '1') rest).map fun digits =>
        (Nat.ofDigitChars 2 digits 0 : Nat)
  | _ =>
      let (negative, unsigned) := spanSign s
      (wholeDigits? unsigned).map fun digits => turned negative (Nat.ofDigitChars 10 digits 0)

/-- The double of a decimal, unless it is too large. -/
def double? (digits : Nat) (power : Int) : Option Float :=
  let size := (natDigits digits).length + power
  if digits = 0 ∨ size < -400 then some 0
  else if 400 < size then none
  else
    let x := Float.ofScientific digits (power < 0) power.natAbs
    if Binary64.isFinite x then some x else none

/-- The exponent of a float: nothing, or a mark, a sign and digits. -/
def exponent? (s : List Char) : Option Int :=
  match s with
  | [] => some 0
  | _ :: rest =>
      let (negative, unsigned) := spanSign rest
      (digitsOf? Char.isDigit unsigned).map fun digits =>
        turned negative (Nat.ofDigitChars 10 digits 0)

/-- A float: whole digits, then a fraction, an exponent or both. -/
def float? (s : List Char) : Option (Option Float) :=
  let (negative, unsigned) := spanSign s
  if unsigned = "inf".toList then some (some (Binary64.withSign negative (1 / 0)))
  else if unsigned = "nan".toList then some (some (0 / 0))
  else
    let isMark (c : Char) := c = 'e' || c = 'E'
    let mantissa := unsigned.takeWhile fun c => !isMark c
    let mark := unsigned.drop mantissa.length
    let whole := mantissa.takeWhile (· != '.')
    let point := mantissa.drop whole.length
    if point.isEmpty && mark.isEmpty then none
    else do
      let wholeDigits ← wholeDigits? whole
      let fraction ← if point.isEmpty then some [] else digitsOf? Char.isDigit (point.drop 1)
      let exponent ← exponent? mark
      let value := double? (Nat.ofDigitChars 10 (wholeDigits ++ fraction) 0)
        (exponent - fraction.length)
      return value.map (Binary64.withSign negative)

/-- A number of exactly two digits, at most the bound. -/
def twoDigits? (greatest : Nat) : List Char → Option (Nat × List Char)
  | a :: b :: rest => do
      let n ← natOfDigits? [a, b]
      if n ≤ greatest then some (n, rest) else none
  | _ => none

/-- How many days a month has. -/
def daysInMonth (year month : Nat) : Nat :=
  if month = 2 then
    if year % 4 = 0 ∧ (year % 100 ≠ 0 ∨ year % 400 = 0) then 29 else 28
  else if [4, 6, 9, 11].contains month then 30
  else 31

/-- What follows a date at the start of a text. -/
def date? : List Char → Option (List Char)
  | a :: b :: c :: d :: '-' :: rest => do
      let year ← natOfDigits? [a, b, c, d]
      match ← twoDigits? 12 rest with
      | (month, '-' :: rest) =>
          let (day, rest) ← twoDigits? (daysInMonth year month) rest
          if 1 ≤ month ∧ 1 ≤ day then some rest else none
      | _ => none
  | _ => none

/-- What follows a fraction of a second. -/
def secondFraction? : List Char → Option (List Char)
  | '.' :: rest =>
      if rest.head?.any Char.isDigit then some (rest.dropWhile Char.isDigit) else none
  | s => some s

/-- What follows a time at the start of a text; it may end with the minutes. -/
def time? (s : List Char) : Option (List Char) := do
  match ← twoDigits? 23 s with
  | (_, ':' :: rest) =>
      match ← twoDigits? 59 rest with
      | (_, ':' :: rest) => do
          let (_, rest) ← twoDigits? 60 rest
          secondFraction? rest
      | (_, rest) => some rest
  | _ => none

/-- An offset from universal time. -/
def isOffset : List Char → Bool
  | ['Z'] => true
  | ['z'] => true
  | sign :: rest =>
      (sign = '+' || sign = '-') &&
        match twoDigits? 23 rest with
        | some (_, ':' :: rest) => (twoDigits? 59 rest).any fun (_, rest) => rest.isEmpty
        | _ => false
  | [] => false

/-- A date, a time, or a date with a time and possibly an offset. -/
def isMoment (s : List Char) : Bool :=
  match date? s with
  | some [] => true
  | some (separator :: rest) =>
      [' ', 'T', 't'].contains separator &&
        match time? rest with
        | some [] => true
        | some offset => isOffset offset
        | none => false
  | none => time? s == some []

/-- The value that stands without quotes. -/
def ofWord? (s : List Char) : Option Scalar :=
  if s = "true".toList then some (.boolean true)
  else if s = "false".toList then some (.boolean false)
  else if isMoment s then some .moment
  else match integer? s with
    | some i => some (.integer i)
    | none => (float? s).map .float

/-- A character that ends what stands without quotes. -/
def endsWord (c : Char) : Bool :=
  c = ' ' || c = '\t' || c = '\n' || c = '\r' || c = ',' || c = ']' || c = '\x7d' || c = '#'

/-- A value without quotes at the start of a text, and what follows it.  A date
    and its time may stand apart by one blank. -/
def read? (s : List Char) : Option (Scalar × List Char) :=
  let word := s.takeWhile fun c => !endsWord c
  let rest := s.drop word.length
  let joined := match date? word, rest with
    | some [], ' ' :: d :: more =>
        if d.isDigit then ' ' :: (d :: more).takeWhile fun c => !endsWord c else []
    | _, _ => []
  (ofWord? (word ++ joined)).map fun value => (value, rest.drop joined.length)

end PcAssembly.Toml.Scalar
