import PcAssembly.Number.Integer
import PcAssembly.Json.Basic

/-! # Quoted texts of a data text

    Inside quotes every character stands for itself, except the quote, the
    backslash and the control characters; the backslash starts an escape.
    Reading takes the escapes apart first, into characters and 16-bit codes,
    and joins the two halves of surrogate pairs after that. -/

namespace PcAssembly.Json.Quoted

open PcAssembly.Number

/-- A piece of a quoted text: a character, or the code of an escape. -/
inductive Piece where
  | char (c : Char)
  | code (value : Nat)
  deriving DecidableEq, Repr

/-- The character that a one-letter escape stands for. -/
def shortEscape? : Char → Option Char
  | '"' => some '"'
  | '\\' => some '\\'
  | '/' => some '/'
  | 'b' => some '\x08'
  | 'f' => some '\x0c'
  | 'n' => some '\n'
  | 'r' => some '\r'
  | 't' => some '\t'
  | _ => none

/-- The pieces up to the closing quote, and the text after it. -/
def pieces? : List Char → Option (List Piece × List Char)
  | [] => none
  | '"' :: rest => some ([], rest)
  | '\\' :: 'u' :: a :: b :: c :: d :: rest => do
      let value ← natOfHex? [a, b, c, d]
      let (pieces, rest) ← pieces? rest
      return (.code value :: pieces, rest)
  | '\\' :: c :: rest => do
      let c ← shortEscape? c
      let (pieces, rest) ← pieces? rest
      return (.char c :: pieces, rest)
  | c :: rest =>
      if c.toNat < 0x20 then none
      else do
        let (pieces, rest) ← pieces? rest
        return (.char c :: pieces, rest)

/-- The first half of a surrogate pair. -/
def isHigh (code : Nat) : Bool := 0xD800 ≤ code && code < 0xDC00

/-- The second half of a surrogate pair. -/
def isLow (code : Nat) : Bool := 0xDC00 ≤ code && code < 0xE000

/-- The characters of the pieces, if no half of a pair is alone. -/
def join? : List Piece → Option (List Char)
  | [] => some []
  | .char c :: rest => (join? rest).map (c :: ·)
  | .code high :: .code low :: rest =>
      if isHigh high then
        if isLow low then
          (join? rest).map
            (Char.ofNat (0x10000 + 0x400 * (high - 0xD800) + (low - 0xDC00)) :: ·)
        else none
      else if isLow high then none
      else (join? (.code low :: rest)).map (Char.ofNat high :: ·)
  | .code code :: rest =>
      if isHigh code || isLow code then none
      else (join? rest).map (Char.ofNat code :: ·)

/-- The content of a quoted text, from after its opening quote, and the text
    after its closing one. -/
def read? (s : List Char) : Option (Quoted × List Char) :=
  (pieces? s).map fun (pieces, rest) => ((join? pieces).map String.ofList, rest)

/-- A character as it is written between quotes. -/
def escape (c : Char) : List Char :=
  match c with
  | '"' => ['\\', '"']
  | '\\' => ['\\', '\\']
  | '\x08' => ['\\', 'b']
  | '\x0c' => ['\\', 'f']
  | '\n' => ['\\', 'n']
  | '\r' => ['\\', 'r']
  | '\t' => ['\\', 't']
  | _ => if c.toNat < 0x20 then '\\' :: 'u' :: hexDigits 4 c.toNat else [c]

/-- A text between quotes. -/
def write (s : String) : List Char :=
  '"' :: s.toList.flatMap escape ++ ['"']

end PcAssembly.Json.Quoted
