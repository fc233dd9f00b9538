import PcAssembly.Number.Integer
import PcAssembly.Text.Blank

/-! # Domain names of a URL

    A domain name may be written with percent escapes, capital letters and
    letters of any script; what counts is its ASCII form.  A plain name, of
    ASCII characters alone, is its own ASCII form in small letters, and some
    characters may not be in it.  The form of every other name follows from
    tables of all scripts, which are not part of this library: they are given
    with the world that a program runs in. -/

namespace PcAssembly

/-- The names that are not plain.  `ascii?` takes the bytes of a name, its
    percent escapes resolved, to its ASCII form, if it has one. -/
structure HostNames where
  ascii? : List UInt8 → Option (List Char)

/-- No names but plain ones. -/
def HostNames.plainOnly : HostNames := ⟨fun _ => none⟩

namespace Url

open PcAssembly.Number

/-- The bytes of a text, with every percent escape as the byte it names. -/
def percentDecoded : List Char → List UInt8
  | '%' :: high :: low :: rest =>
      match hexDigit? high, hexDigit? low with
      | some h, some l => UInt8.ofNat (16 * h + l) :: percentDecoded rest
      | _, _ => '%'.toNat.toUInt8 :: percentDecoded (high :: low :: rest)
  | c :: rest => String.utf8EncodeChar c ++ percentDecoded rest
  | [] => []

/-- ASCII characters that no domain name may have. -/
def isForbiddenAscii (c : Char) : Bool :=
  c.toNat ≤ 0x20 || c.toNat = 0x7F || "%#/:<>?@[\\]^|".toList.contains c

/-- The ASCII character of a byte, in small letters. -/
def asciiChar (byte : UInt8) : Char := (Char.ofNat byte.toNat).toLower

/-- The label is the ASCII form of an international one. -/
def isInternational (label : List Char) : Bool :=
  (Text.dropStart? "xn--".toList label).isSome

/-- The bytes are ASCII, and no label is the ASCII form of an international
    one. -/
def isPlainName (bytes : List UInt8) : Bool :=
  bytes.all (· < 0x80) && !(Text.split '.' (bytes.map asciiChar)).any isInternational

/-- The ASCII form of the name that a host spells, in small letters; none if it
    is no name. -/
def domain? (names : HostNames) (host : List Char) : Option (List Char) :=
  let bytes := percentDecoded host
  if isPlainName bytes then
    let name := bytes.map asciiChar
    if name.any isForbiddenAscii then none else some name
  else names.ascii? bytes

end Url

end PcAssembly
