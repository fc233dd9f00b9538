import PcAssembly.Number.Integer
import PcAssembly.Text.Blank

/-! # Numeric hosts

    A host whose last label is a number is an IPv4 address: one to four
    numbers, decimal, octal after a zero or hexadecimal after `0x`, the last
    of which fills what the others leave.  A host in brackets is an IPv6
    address: eight pieces of up to four hexadecimal digits, one run of zero
    pieces left out, the last two pieces written as a plain IPv4 address if
    one likes. -/

namespace PcAssembly.Url

open PcAssembly.Number

/-- An octal digit. -/
def isOctal (c : Char) : Bool := '0' ≤ c && c ≤ '7'

/-- The value of a digit run in a base up to eight or ten. -/
def octalValue (digits : List Char) : Nat := Nat.ofDigitChars 8 digits 0

/-- A number of an IPv4 address; an empty number after a base mark is zero. -/
def ipv4Number? (s : List Char) : Option Nat :=
  match s with
  | [] => none
  | '0' :: x :: digits =>
      if x = 'x' ∨ x = 'X' then
        if digits.isEmpty then some 0 else natOfHex? digits
      else if (x :: digits).all isOctal then some (octalValue (x :: digits))
      else none
  | digits => natOfDigits? digits

/-- The labels of a host, without the empty one after a last dot. -/
def labels (host : List Char) : List (List Char) :=
  let all := Text.split '.' host
  if all.getLast? = some [] then all.dropLast else all

/-- The last label of the host is a number, so the host is an address. -/
def endsInNumber (host : List Char) : Bool :=
  match (labels host).getLast? with
  | none => false
  | some label =>
      (!label.isEmpty && label.all Char.isDigit) || (ipv4Number? label).isSome

/-- The host is an IPv4 address. -/
def isIpv4 (host : List Char) : Bool :=
  let parts := labels host
  match parts.mapM ipv4Number? with
  | none => false
  | some numbers =>
      match numbers.getLast? with
      | none => false
      | some last =>
          let front := numbers.dropLast
          numbers.length ≤ 4 && front.all (· ≤ 255) && last < Nat.pow 256 (4 - front.length)

/-- Up to four hexadecimal digits at the start of a text: how many, and the
    rest. -/
def hexRun : Nat → List Char → Nat × List Char
  | 0, s => (0, s)
  | limit + 1, c :: rest =>
      if (hexDigit? c).isSome then
        let (count, rest) := hexRun limit rest
        (count + 1, rest)
      else (0, c :: rest)
  | _, [] => (0, [])

/-- A number of the plain IPv4 form: no leading zero, at most 255. -/
def isOctet (s : List Char) : Bool :=
  match natOfDigits? s with
  | none => false
  | some n => n ≤ 255 && (s.length = 1 || s.head? != some '0')

/-- Four octets between dots. -/
def isPlainIpv4 (s : List Char) : Bool :=
  let parts := Text.split '.' s
  parts.length = 4 && parts.all isOctet

/-- The pieces of an IPv6 address from here on, given how many there have been
    and whether a run has been left out already.  Every piece but the last is
    followed by a colon and something more. -/
def areIpv6Pieces : Nat → Nat → Bool → List Char → Bool
  | 0, _, _, _ => false
  | _, pieces, compressed, [] => compressed || pieces = 8
  | fuel + 1, pieces, compressed, c :: rest =>
      if pieces = 8 then false
      else if c = ':' then
        !compressed && areIpv6Pieces fuel (pieces + 1) true rest
      else
        let (count, after) := hexRun 4 (c :: rest)
        match after with
        | [] => 0 < count && areIpv6Pieces fuel (pieces + 1) compressed []
        | ':' :: more =>
            !more.isEmpty && areIpv6Pieces fuel (pieces + 1) compressed more
        | '.' :: _ =>
            0 < count && pieces ≤ 6 && isPlainIpv4 (c :: rest) &&
              (compressed || pieces = 6)
        | _ => false

/-- The text between the brackets is an IPv6 address. -/
def isIpv6 (s : List Char) : Bool :=
  match s with
  | ':' :: ':' :: rest => areIpv6Pieces (rest.length + 1) 1 true rest
  | ':' :: _ => false
  | [] => false
  | [_] => false
  | _ => areIpv6Pieces (s.length + 1) 0 false s

end PcAssembly.Url
