import PcAssembly.Url.Address
import PcAssembly.Url.Domain

/-! # Whether a text is a URL

    A text is taken apart as a browser does: blanks around it are dropped,
    tabs and line ends inside it are skipped, and with the schemes of the web
    a backslash is a slash and any number of slashes may follow the colon.
    Only the scheme, the host and the port can make it no URL; a path, a
    query and a fragment never do. -/

namespace PcAssembly.Url

/-- Why a text is no URL. -/
inductive Fault where
  | relativeWithoutBase
  | emptyHost
  | invalidPort
  | invalidIpv4
  | invalidIpv6
  | invalidDomain
  | invalidDomainCharacter
  deriving DecidableEq, Repr

/-- The reason in words. -/
def Fault.message : Fault → String
  | .relativeWithoutBase => "relative URL without a base"
  | .emptyHost => "empty host"
  | .invalidPort => "invalid port number"
  | .invalidIpv4 => "invalid IPv4 address"
  | .invalidIpv6 => "invalid IPv6 address"
  | .invalidDomain => "invalid international domain name"
  | .invalidDomainCharacter => "invalid domain character"

/-- How the text after a scheme is read. -/
inductive SchemeKind where
  /-- A scheme of the web, which needs a host. -/
  | web
  /-- The scheme of local files. -/
  | file
  /-- Any other scheme. -/
  | other
  deriving DecidableEq, Repr

/-- The kind of a scheme. -/
def SchemeKind.of (scheme : String) : SchemeKind :=
  if ["http", "https", "ws", "wss", "ftp"].contains scheme then .web
  else if scheme == "file" then .file
  else .other

/-- A backslash counts as a slash, except after a scheme of no special kind. -/
def isSlash (kind : SchemeKind) (c : Char) : Bool :=
  c = '/' || (c = '\\' && kind != .other)

/-- The character ends the host and port. -/
def endsAuthority (kind : SchemeKind) (c : Char) : Bool :=
  isSlash kind c || c = '?' || c = '#'

/-- A blank or control character, which does not belong to a URL at its ends. -/
def isEdge (c : Char) : Bool := c.toNat ≤ 0x20

/-- The characters of a URL: nothing at the edges, and no tab or line end. -/
def urlChars (s : List Char) : List Char :=
  let trimmed := ((s.dropWhile isEdge).reverse.dropWhile isEdge).reverse
  trimmed.filter fun c => c != '\t' && c != '\n' && c != '\r'

/-- A character of a scheme after the first. -/
def isSchemeChar (c : Char) : Bool :=
  c.isAlphanum || c = '+' || c = '-' || c = '.'

/-- The scheme in small letters, and the text after its colon. -/
def scheme? (s : List Char) : Option (String × List Char) :=
  match s with
  | first :: _ =>
      let name := s.takeWhile isSchemeChar
      match s.drop name.length with
      | ':' :: rest =>
          if first.isAlpha then some (String.ofList (name.map Char.toLower), rest) else none
      | _ => none
  | [] => none

/-- The host at the start of a text and the text after it.  A colon ends the
    host unless it stands in brackets. -/
def spanHost (kind : SchemeKind) : Bool → List Char → List Char × List Char
  | _, [] => ([], [])
  | bracketed, c :: rest =>
      if endsAuthority kind c || (c = ':' && !bracketed) then ([], c :: rest)
      else
        let bracketed := if c = '[' then true else if c = ']' then false else bracketed
        let (host, rest) := spanHost kind bracketed rest
        (c :: host, rest)

/-- A host in brackets. -/
def bracketFault? (inner : List Char) : Option Fault :=
  if inner.getLast? = some ']' then
    if isIpv6 inner.dropLast then none else some .invalidIpv6
  else some .invalidIpv6

/-- What is wrong with the host of a web or file URL, if it is not empty. -/
def hostFault? (names : HostNames) (host : List Char) : Option Fault :=
  match host with
  | '[' :: inner => bracketFault? inner
  | _ =>
      match domain? names host with
      | none => some .invalidDomain
      | some [] => some .emptyHost
      | some name =>
          if endsInNumber name && !isIpv4 name then some .invalidIpv4 else none

/-- A character that a host of any other scheme must not have. -/
def isForbiddenInOpaque (c : Char) : Bool :=
  "\x00 #/:<>?@[\\]^|".toList.contains c

/-- What is wrong with the host after any other scheme. -/
def opaqueHostFault? (host : List Char) : Option Fault :=
  match host with
  | '[' :: inner => bracketFault? inner
  | _ => if host.any isForbiddenInOpaque then some .invalidDomainCharacter else none

/-- What is wrong with the text after the colon of a port: digits of at most
    65535, up to the path. -/
def portFault? (s : List Char) : Option Fault :=
  let digits := s.takeWhile Char.isDigit
  let ended := match s.drop digits.length with
    | [] => true
    | c :: _ => c = '/' || c = '\\' || c = '?' || c = '#'
  if ended && decide (Nat.ofDigitChars 10 digits 0 ≤ 65535) then none else some .invalidPort

/-- The user information before the last `@` of an authority, if there is one,
    and the text after it. -/
def splitUser (kind : SchemeKind) (s : List Char) : Option (List Char) × List Char :=
  let authority := s.takeWhile fun c => !endsAuthority kind c
  let host := (authority.reverse.takeWhile (· != '@')).reverse
  if host.length = authority.length then (none, s)
  else
    let user := (authority.take (authority.length - host.length)).dropLast
    (some user, s.drop (user.length + 1))

/-- User information that names somebody. -/
def namesUser (user : List Char) : Bool :=
  !user.isEmpty && user != [':']

/-- What is wrong with the authority that starts a text. -/
def authorityFault? (names : HostNames) (kind : SchemeKind) (s : List Char) : Option Fault :=
  let (user, rest) := splitUser kind s
  let loneAt := user == some [] && rest.head?.any (endsAuthority kind)
  let (host, afterHost) := spanHost kind false rest
  if loneAt then some .emptyHost
  else if kind = .web then
    if host.isEmpty then some .emptyHost
    else hostFault? names host <|> (match afterHost with
      | ':' :: port => portFault? port
      | _ => none)
  else
    match opaqueHostFault? host with
    | some fault => some fault
    | none =>
        match afterHost with
        | ':' :: port => if host.isEmpty then some .emptyHost else portFault? port
        | _ => if host.isEmpty && user.any namesUser then some .emptyHost else none

/-- A letter and a colon or bar: the name of a drive, not of a host. -/
def isDriveLetter (s : List Char) : Bool :=
  match s with
  | [letter, mark] => letter.isAlpha && (mark = ':' || mark = '|')
  | _ => false

/-- What is wrong with the text after the scheme of local files: only a host
    can be. -/
def fileFault? (names : HostNames) (s : List Char) : Option Fault :=
  match s with
  | a :: b :: rest =>
      if isSlash .file a && isSlash .file b then
        let host := rest.takeWhile fun c => !endsAuthority .file c
        if host.isEmpty || isDriveLetter host then none else hostFault? names host
      else none
  | _ => none

/-- What is wrong with the text after the colon of a scheme. -/
def restFault? (names : HostNames) (kind : SchemeKind) (rest : List Char) : Option Fault :=
  match kind with
  | .web => authorityFault? names .web (rest.dropWhile (isSlash .web))
  | .file => fileFault? names rest
  | .other =>
      match rest with
      | '/' :: '/' :: authority => authorityFault? names .other authority
      | _ => none

/-- The scheme of a URL, or why the text is none. -/
def scheme (names : HostNames) (s : String) : Except Fault String :=
  match scheme? (urlChars s.toList) with
  | none => .error .relativeWithoutBase
  | some (name, rest) =>
      match restFault? names (.of name) rest with
      | some fault => .error fault
      | none => .ok name

end PcAssembly.Url
