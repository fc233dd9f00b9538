import PcAssembly.PathName
import PcAssembly.Url.Check

/-! # Values a configuration may have

    Every setting has a rule of its own kind: a web address, a path, a path
    to a file of one type, or a number in bounds.  A rule answers with the
    reason for which it refuses a value. -/

namespace PcAssembly

/-- Why a value of a setting is refused. -/
inductive ValueFault where
  | emptyUrl
  | malformedUrl (fault : Url.Fault)
  | unsupportedScheme (scheme : String)
  | emptyPath
  | nullInPath
  | noExtension
  | unsupportedExtension (extension expected : String)
  | belowMinimum (least : Int)
  | outsideRange (least greatest : Int)
  | stated (message : String)
  deriving DecidableEq, Repr

/-- The reason in words. -/
def ValueFault.message : ValueFault → String
  | .emptyUrl => "URL cannot be empty"
  | .malformedUrl fault => s!"Invalid URL format: {fault.message}"
  | .unsupportedScheme scheme => s!"Unsupported URL scheme: {scheme}"
  | .emptyPath => "Path cannot be empty"
  | .nullInPath => "Path contains null bytes"
  | .noExtension => "File has no extension or invalid filename"
  | .unsupportedExtension extension expected =>
      s!"Unsupported file extension: {extension}. Expected: {expected}"
  | .belowMinimum least => s!"Value must be at least {least}"
  | .outsideRange least greatest => s!"Value must be between {least} and {greatest}"
  | .stated message => message

namespace ValueFault

/-- A web address: a URL of one of the two schemes of the web. -/
def ofUrl? (names : HostNames) (value : String) : Option ValueFault :=
  if value.isEmpty then some .emptyUrl
  else match Url.scheme names value with
    | .error fault => some (.malformedUrl fault)
    | .ok scheme =>
        if scheme == "http" || scheme == "https" then none
        else some (.unsupportedScheme scheme)

/-- A path: not blank, and without a null character. -/
def ofPath? (value : String) : Option ValueFault :=
  if (Text.trimmed value).isEmpty then some .emptyPath
  else if value.toList.contains '\x00' then some .nullInPath
  else none

/-- A path to a file with this extension, in any letter case. -/
def ofExtension? (expected value : String) : Option ValueFault :=
  match PathName.extension? value with
  | none => some .noExtension
  | some extension =>
      if Text.lowered extension == Text.lowered expected then none
      else some (.unsupportedExtension extension expected)

/-- A number that is at least the bound. -/
def ofMinimum? (least value : Int) : Option ValueFault :=
  if value < least then some (.belowMinimum least) else none

/-- A number between two bounds, both allowed. -/
def ofRange? (least greatest value : Int) : Option ValueFault :=
  if value < least ∨ greatest < value then some (.outsideRange least greatest) else none

end ValueFault

end PcAssembly
