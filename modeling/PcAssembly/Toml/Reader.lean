import PcAssembly.Toml.Scalar
import PcAssembly.Toml.Table
import PcAssembly.Toml.Text

/-! # Reading documents

    A document is a list of lines: headers, keys with values, comments.  The
    lines are read one after the other and added to the tree; the first line
    that cannot be read or added makes the document unreadable.  Readers of
    nested values and of lines count down a fuel set from the length of the
    text. -/

namespace PcAssembly.Toml

/-- The table of the members between two braces. -/
def inlineTable? (pairs : List (List String × Toml)) : Option Toml :=
  (pairs.foldlM (fun table (key, value) => do
    let (path, name) ← splitKey? key
    addPair? path name value table) (.table .header [])).map closed

/-- How many arrays and inline tables may stand around a value. -/
def maxLevels : Nat := 80

mutual

/-- The value at the start of a text, which may open this many more levels of
    arrays and inline tables. -/
def value? : (levels fuel : Nat) → List Char → Option (Toml × List Char)
  | _, 0, _ => none
  | levels, fuel + 1, s =>
      match levels, s with
      | 0, '[' :: _ => none
      | 0, '\x7b' :: _ => none
      | inner + 1, '[' :: rest => do
          let (items, rest) ← items? inner fuel (← skipTrivia? false rest)
          return (.array false items, rest)
      | inner + 1, '\x7b' :: rest => do
          let (pairs, rest) ← pairs? inner fuel (← skipTrivia? false rest)
          return (← inlineTable? pairs, rest)
      | _, '"' :: _ => (quoted? s).map fun (text, rest) => (.scalar (.string text), rest)
      | _, '\'' :: _ => (quoted? s).map fun (text, rest) => (.scalar (.string text), rest)
      | _, _ => (Scalar.read? s).map fun (value, rest) => (.scalar value, rest)

/-- The items of an array up to its closing bracket; the last may be followed
    by a comma. -/
def items? : (levels fuel : Nat) → List Char → Option (List Toml × List Char)
  | _, 0, _ => none
  | _, _, ']' :: rest => some ([], rest)
  | levels, fuel + 1, s => do
      let (item, rest) ← value? levels fuel s
      match ← skipTrivia? false rest with
      | ']' :: rest => some ([item], rest)
      | ',' :: rest =>
          let (items, rest) ← items? levels fuel (← skipTrivia? false rest)
          return (item :: items, rest)
      | _ => none

/-- The keys and values between braces; the last may be followed by a
    comma. -/
def pairs? : (levels fuel : Nat) → List Char →
    Option (List (List String × Toml) × List Char)
  | _, 0, _ => none
  | _, _, '\x7d' :: rest => some ([], rest)
  | levels, fuel + 1, s => do
      let (key, rest) ← key? s
      match rest with
      | '=' :: rest =>
          let (value, rest) ← value? levels fuel (skipBlanks rest)
          match ← skipTrivia? false rest with
          | '\x7d' :: rest => some ([(key, value)], rest)
          | ',' :: rest =>
              let (pairs, rest) ← pairs? levels fuel (← skipTrivia? false rest)
              return ((key, value) :: pairs, rest)
          | _ => none
      | _ => none

end

/-- A document while it is read: its tree, and the path to the open table. -/
structure Draft where
  root : Toml
  opened : List String

/-- The document without lines. -/
def Draft.empty : Draft := ⟨.table .header [], []⟩

/-- The document with one more line, and the text after that line. -/
def Draft.line? (draft : Draft) (s : List Char) : Option (Draft × List Char) :=
  match s with
  | '[' :: '[' :: rest => do
      let (key, rest) ← key? (skipBlanks rest)
      match rest with
      | ']' :: ']' :: rest =>
          let (path, name) ← splitKey? key
          return (⟨← openItem? path name draft.root, key⟩, ← endLine? rest)
      | _ => none
  | '[' :: rest => do
      let (key, rest) ← key? (skipBlanks rest)
      match rest with
      | ']' :: rest =>
          let (path, name) ← splitKey? key
          return (⟨← openTable? path name draft.root, key⟩, ← endLine? rest)
      | _ => none
  | _ => do
      let (key, rest) ← key? s
      match rest with
      | '=' :: rest =>
          let (value, rest) ← value? maxLevels (2 * rest.length + 2) (skipBlanks rest)
          let (path, name) ← splitKey? key
          return ({ draft with root := ← addUnder? draft.opened path name value draft.root },
            ← endLine? rest)
      | _ => none

/-- The document with all lines of a text. -/
def Draft.lines? : Nat → Draft → List Char → Option Draft
  | 0, _, _ => none
  | fuel + 1, draft, s => do
      match ← skipTrivia? false s with
      | [] => some draft
      | s =>
          let (draft, rest) ← draft.line? s
          draft.lines? fuel rest

/-- The text after the mark that may stand at its start. -/
def afterMark : List Char → List Char
  | '\ufeff' :: rest => rest
  | s => s

/-- The members of the root table of a document. -/
def read? (s : List Char) : Option Members := do
  let s := afterMark s
  match (← Draft.lines? (s.length + 1) .empty s).root with
  | .table _ members => some members
  | _ => none

end PcAssembly.Toml
