import PcAssembly.Number.Integer
import PcAssembly.Toml.Basic

/-! # Blanks, comments and quoted texts of a document

    A comment reaches to the end of its line.  Texts stand between double
    quotes, where a backslash starts an escape, or between single quotes,
    where it does not; three quotes open a text of several lines. -/

namespace PcAssembly.Toml

open PcAssembly.Number

/-- A blank inside a line. -/
def isBlank (c : Char) : Bool := c = ' ' || c = '\t'

/-- The text after the blanks at its start. -/
def skipBlanks (s : List Char) : List Char := s.dropWhile isBlank

/-- A character that may stand in a comment or a quoted text of one line. -/
def isPrintable (c : Char) : Bool := c = '\t' || (0x20 ≤ c.toNat && c.toNat ≠ 0x7F)

/-- The text after a line end, if it starts with one. -/
def lineEnd? : List Char → Option (List Char)
  | '\n' :: rest => some rest
  | '\r' :: '\n' :: rest => some rest
  | _ => none

/-- The text after blanks, line ends and comments; `inComment` says that it
    starts inside a comment.  None if a comment holds a control character. -/
def skipTrivia? : Bool → List Char → Option (List Char)
  | _, [] => some []
  | _, '\n' :: rest => skipTrivia? false rest
  | _, '\r' :: '\n' :: rest => skipTrivia? false rest
  | true, c :: rest => if isPrintable c then skipTrivia? true rest else none
  | false, '#' :: rest => skipTrivia? true rest
  | false, c :: rest => if isBlank c then skipTrivia? false rest else some (c :: rest)

/-- The text from the line end after a comment, from after its mark. -/
def skipComment? : List Char → Option (List Char)
  | [] => some []
  | '\n' :: rest => some ('\n' :: rest)
  | '\r' :: '\n' :: rest => some ('\r' :: '\n' :: rest)
  | c :: rest => if isPrintable c then skipComment? rest else none

/-- The text after the rest of a line that holds nothing more than a
    comment. -/
def endLine? (s : List Char) : Option (List Char) :=
  match skipBlanks s with
  | [] => some []
  | '#' :: rest => do
      match ← skipComment? rest with
      | [] => some []
      | rest => lineEnd? rest
  | rest => lineEnd? rest

/-- The character with this code, if there is one. -/
def charOfCode? (code : Nat) : Option Char :=
  if (Char.ofNat code).toNat = code then some (Char.ofNat code) else none

/-- The character that a one-letter escape stands for. -/
def shortEscape? : Char → Option Char
  | '"' => some '"'
  | '\\' => some '\\'
  | 'b' => some '\x08'
  | 't' => some '\t'
  | 'n' => some '\n'
  | 'f' => some '\x0c'
  | 'r' => some '\r'
  | 'e' => some '\x1b'
  | _ => none

/-- The character of a numeric escape. -/
def codeEscape? (digits : List Char) : Option Char :=
  (natOfHex? digits).bind charOfCode?

/-- A character in front of what has been read. -/
def prepend (c : Char) (read : List Char × List Char) : List Char × List Char :=
  (c :: read.1, read.2)

/-- A text of one line with escapes, from after its opening quote, and the
    text after it. -/
def basic? : List Char → Option (List Char × List Char)
  | [] => none
  | '"' :: rest => some ([], rest)
  | '\\' :: 'x' :: a :: b :: rest => do
      return prepend (← codeEscape? [a, b]) (← basic? rest)
  | '\\' :: 'u' :: a :: b :: c :: d :: rest => do
      return prepend (← codeEscape? [a, b, c, d]) (← basic? rest)
  | '\\' :: 'U' :: a :: b :: c :: d :: e :: f :: g :: h :: rest => do
      return prepend (← codeEscape? [a, b, c, d, e, f, g, h]) (← basic? rest)
  | '\\' :: c :: rest => do return prepend (← shortEscape? c) (← basic? rest)
  | c :: rest => do
      if isPrintable c then return prepend c (← basic? rest) else none

/-- A text of one line without escapes. -/
def literal? : List Char → Option (List Char × List Char)
  | [] => none
  | '\'' :: rest => some ([], rest)
  | c :: rest => do
      if isPrintable c then return prepend c (← literal? rest) else none

/-- What a backslash at the end of a line has left to skip. -/
inductive Skipping where
  | nothing
  /-- Blanks up to the line end that must follow. -/
  | toLineEnd
  /-- Blanks and line ends. -/
  | space
  deriving DecidableEq, Repr

/-- A text of several lines with escapes, from after its opening quotes. -/
def basicLines? : Skipping → List Char → Option (List Char × List Char)
  | _, [] => none
  | .toLineEnd, '\n' :: rest => basicLines? .space rest
  | .toLineEnd, '\r' :: '\n' :: rest => basicLines? .space rest
  | .toLineEnd, c :: rest => if isBlank c then basicLines? .toLineEnd rest else none
  | .space, '\n' :: rest => basicLines? .space rest
  | .space, '\r' :: '\n' :: rest => basicLines? .space rest
  | .space, ' ' :: rest => basicLines? .space rest
  | .space, '\t' :: rest => basicLines? .space rest
  | _, '"' :: '"' :: '"' :: '"' :: '"' :: rest => some (['"', '"'], rest)
  | _, '"' :: '"' :: '"' :: '"' :: rest => some (['"'], rest)
  | _, '"' :: '"' :: '"' :: rest => some ([], rest)
  | _, '\\' :: '\n' :: rest => basicLines? .space rest
  | _, '\\' :: '\r' :: '\n' :: rest => basicLines? .space rest
  | _, '\\' :: ' ' :: rest => basicLines? .toLineEnd rest
  | _, '\\' :: '\t' :: rest => basicLines? .toLineEnd rest
  | _, '\\' :: 'x' :: a :: b :: rest => do
      return prepend (← codeEscape? [a, b]) (← basicLines? .nothing rest)
  | _, '\\' :: 'u' :: a :: b :: c :: d :: rest => do
      return prepend (← codeEscape? [a, b, c, d]) (← basicLines? .nothing rest)
  | _, '\\' :: 'U' :: a :: b :: c :: d :: e :: f :: g :: h :: rest => do
      return prepend (← codeEscape? [a, b, c, d, e, f, g, h]) (← basicLines? .nothing rest)
  | _, '\\' :: c :: rest => do
      return prepend (← shortEscape? c) (← basicLines? .nothing rest)
  | _, '\r' :: '\n' :: rest => do return prepend '\n' (← basicLines? .nothing rest)
  | _, c :: rest => do
      if isPrintable c || c = '\n' then return prepend c (← basicLines? .nothing rest)
      else none

/-- A text of several lines without escapes. -/
def literalLines? : List Char → Option (List Char × List Char)
  | [] => none
  | '\'' :: '\'' :: '\'' :: '\'' :: '\'' :: rest => some (['\'', '\''], rest)
  | '\'' :: '\'' :: '\'' :: '\'' :: rest => some (['\''], rest)
  | '\'' :: '\'' :: '\'' :: rest => some ([], rest)
  | '\r' :: '\n' :: rest => do return prepend '\n' (← literalLines? rest)
  | c :: rest => do
      if isPrintable c || c = '\n' then return prepend c (← literalLines? rest) else none

/-- The text after a line end right after opening quotes. -/
def afterFirstLineEnd (s : List Char) : List Char := (lineEnd? s).getD s

/-- A quoted text at the start of a text, and what follows it. -/
def quoted? (s : List Char) : Option (String × List Char) :=
  let read := match s with
    | '"' :: '"' :: '"' :: rest => basicLines? .nothing (afterFirstLineEnd rest)
    | '\'' :: '\'' :: '\'' :: rest => literalLines? (afterFirstLineEnd rest)
    | '"' :: rest => basic? rest
    | '\'' :: rest => literal? rest
    | _ => none
  read.map fun (chars, rest) => (String.ofList chars, rest)

/-- A character of a key without quotes. -/
def isBareKeyChar (c : Char) : Bool := c.isAlphanum || c = '_' || c = '-'

/-- One step of a key. -/
def simpleKey? (s : List Char) : Option (String × List Char) :=
  let read := match s with
    | '"' :: rest => basic? rest
    | '\'' :: rest => literal? rest
    | _ =>
        match s.takeWhile isBareKeyChar with
        | [] => none
        | name => some (name, s.drop name.length)
  read.map fun (chars, rest) => (String.ofList chars, rest)

/-- The steps of a key after the first, each behind a dot. -/
def keySteps? : Nat → List Char → Option (List String × List Char)
  | 0, _ => none
  | fuel + 1, s =>
      match skipBlanks s with
      | '.' :: rest => do
          let (name, rest) ← simpleKey? (skipBlanks rest)
          let (names, rest) ← keySteps? fuel rest
          return (name :: names, rest)
      | rest => some ([], rest)

/-- A key at the start of a text: its steps, and the text after it and the
    blanks behind it. -/
def key? (s : List Char) : Option (List String × List Char) := do
  let (name, rest) ← simpleKey? s
  let (names, rest) ← keySteps? (rest.length + 1) rest
  return (name :: names, rest)

end PcAssembly.Toml
