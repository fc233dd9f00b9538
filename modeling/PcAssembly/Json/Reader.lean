import PcAssembly.Json.Number
import PcAssembly.Json.Text

/-! # Reading data texts

    The grammar is the strict one: no comment, no trailing comma, nothing
    before or after the value but blanks, and only four characters are
    blanks.  Every reading step returns what it read and the rest of the
    text.  The steps for arrays and objects count down a fuel that `read?`
    sets from the length of the text: a nested value takes a character and at
    most two steps. -/

namespace PcAssembly.Json

/-- The four characters that may stand between tokens. -/
def isSpace (c : Char) : Bool :=
  c = ' ' || c = '\t' || c = '\n' || c = '\r'

/-- The text from its first character that is no blank. -/
def skipSpaces (s : List Char) : List Char :=
  s.dropWhile isSpace

/-- A value without parts at the start of a text: a word, a quoted text or a
    number. -/
def scalar? (s : List Char) : Option (Json × List Char) :=
  match s with
  | 'n' :: 'u' :: 'l' :: 'l' :: rest => some (.null, rest)
  | 't' :: 'r' :: 'u' :: 'e' :: rest => some (.bool true, rest)
  | 'f' :: 'a' :: 'l' :: 's' :: 'e' :: rest => some (.bool false, rest)
  | '"' :: rest => (Quoted.read? rest).map fun (quoted, rest) => (.string quoted, rest)
  | _ => (Number.literal? s).map fun (literal, rest) =>
      (.number (Number.ofLiteral literal), rest)

/-- The name of a member at the start of a text, and what follows its
    colon. -/
def name? (s : List Char) : Option (Quoted × List Char) :=
  match s with
  | '"' :: rest => do
      let (name, rest) ← Quoted.read? rest
      match skipSpaces rest with
      | ':' :: rest => some (name, skipSpaces rest)
      | _ => none
  | _ => none

mutual

/-- The value at the start of a text. -/
def value? : Nat → List Char → Option (Json × List Char)
  | 0, _ => none
  | fuel + 1, s =>
      match s with
      | '[' :: rest =>
          match skipSpaces rest with
          | ']' :: rest => some (.array [], rest)
          | rest => do
              let (items, rest) ← items? fuel rest
              return (.array items, rest)
      | '\x7b' :: rest =>
          match skipSpaces rest with
          | '\x7d' :: rest => some (.object [], rest)
          | rest => do
              let (members, rest) ← members? fuel rest
              return (.object members, rest)
      | _ => scalar? s

/-- The items of an array from the first one on, up to the closing bracket. -/
def items? : Nat → List Char → Option (List Json × List Char)
  | 0, _ => none
  | fuel + 1, s => do
      let (item, rest) ← value? fuel s
      match skipSpaces rest with
      | ']' :: rest => some ([item], rest)
      | ',' :: rest => do
          let (items, rest) ← items? fuel (skipSpaces rest)
          return (item :: items, rest)
      | _ => none

/-- The members of an object from the first one on, up to the closing
    brace. -/
def members? : Nat → List Char → Option (List (Quoted × Json) × List Char)
  | 0, _ => none
  | fuel + 1, s => do
      let (name, rest) ← name? s
      let (item, rest) ← value? fuel rest
      match skipSpaces rest with
      | '\x7d' :: rest => some ([(name, item)], rest)
      | ',' :: rest => do
          let (members, rest) ← members? fuel (skipSpaces rest)
          return ((name, item) :: members, rest)
      | _ => none

end

/-- The value of a whole text: nothing but blanks may follow it. -/
def read? (s : List Char) : Option Json := do
  let (value, rest) ← value? (2 * s.length + 1) (skipSpaces s)
  if (skipSpaces rest).isEmpty then some value else none

/-- The value of a string. -/
def ofText? (s : String) : Option Json :=
  read? s.toList

end PcAssembly.Json
