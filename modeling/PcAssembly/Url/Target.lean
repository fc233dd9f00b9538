import PcAssembly.Url.Check

/-! # What a URL asks its server for

    The part of a web URL after the host is a path and possibly a query; a
    fragment stays with the asker.  Path and query are written in ASCII, with
    percent escapes for the rest and for the characters that have a meaning
    around them, and steps of a path that stay or lead up are carried out. -/

namespace PcAssembly.Url

open PcAssembly.Number

/-- A byte as a percent escape. -/
def escapedByte (byte : UInt8) : List Char :=
  '%' :: (hexDigits 2 byte.toNat).map Char.toUpper

/-- The text with percent escapes for the bytes of all characters that are
    not kept. -/
def escaped (isKept : Char → Bool) (s : List Char) : List Char :=
  s.flatMap fun c => if isKept c then [c] else (String.utf8EncodeChar c).flatMap escapedByte

/-- A visible ASCII character. -/
def isVisible (c : Char) : Bool := 0x21 ≤ c.toNat && c.toNat ≤ 0x7E

/-- A character that may stand in a step of a path. -/
def isPathChar (c : Char) : Bool := isVisible c && !"\"#<>?`\x7b\x7d".toList.contains c

/-- A character that may stand in the query of a web URL. -/
def isQueryChar (c : Char) : Bool := isVisible c && !"\"#<>'".toList.contains c

/-- A character that may stand in a value of a query. -/
def isValueChar (c : Char) : Bool := c.isAlphanum || "*-._".toList.contains c

/-- A name or value of a query, a blank as a plus sign. -/
def queryText (s : String) : List Char :=
  s.toList.flatMap fun c => if c = ' ' then ['+'] else escaped isValueChar [c]

/-- A name and a value of a query. -/
def queryPair (name value : String) : List Char :=
  queryText name ++ '=' :: queryText value

/-- The step with an escaped dot written as a dot. -/
def withPlainDots : List Char → List Char
  | '%' :: '2' :: 'e' :: rest => '.' :: withPlainDots rest
  | '%' :: '2' :: 'E' :: rest => '.' :: withPlainDots rest
  | c :: rest => c :: withPlainDots rest
  | [] => []

/-- The steps that are left of a path when those before have been walked:
    one dot stays, two lead up, and at the end either leaves an empty step. -/
def walked (before : List (List Char)) : List (List Char) → List (List Char)
  | [] => before
  | step :: rest =>
      let atEnd := if rest.isEmpty then [[]] else []
      if withPlainDots step = ['.'] then walked (before ++ atEnd) rest
      else if withPlainDots step = ['.', '.'] then walked (before.dropLast ++ atEnd) rest
      else walked (before ++ [step]) rest

/-- The path of a web URL from the text between host and query. -/
def path (s : List Char) : List Char :=
  let slashes := s.map fun c => if c = '\\' then '/' else c
  let steps := match slashes with
    | '/' :: rest => rest
    | rest => rest
  (walked [] ((Text.split '/' steps).map (escaped isPathChar))).flatMap ('/' :: ·)

/-- A web URL by the parts that reach its server. -/
structure Target where
  authority : List Char
  path : List Char
  query : Option (List Char)
  deriving DecidableEq, Repr

namespace Target

/-- The parts of a text that is a web URL. -/
def ofText? (names : HostNames) (text : String) : Option Target := do
  let (name, rest) ← scheme? (urlChars text.toList)
  if SchemeKind.of name = .web ∧ (restFault? names .web rest).isNone then
    let rest := rest.dropWhile (isSlash .web)
    let authority := rest.takeWhile fun c => !endsAuthority .web c
    let asked := (rest.drop authority.length).takeWhile (· != '#')
    let path := Url.path (asked.takeWhile (· != '?'))
    let query := match asked.dropWhile (· != '?') with
      | [] => none
      | _ :: query => some (escaped isQueryChar query)
    some ⟨authority, path, query⟩
  else none

/-- The target with one more name and value in its query. -/
def addPair (target : Target) (name value : String) : Target :=
  let pair := queryPair name value
  { target with query := some <| match target.query with
      | none => pair
      | some [] => pair
      | some query => query ++ '&' :: pair }

/-- What a request line names: the path and the query. -/
def toText (target : Target) : String :=
  String.ofList (target.path ++ match target.query with
    | none => []
    | some query => '?' :: query)

end Target

end PcAssembly.Url
