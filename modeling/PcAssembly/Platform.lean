import PcAssembly.Text.Blank

/-! # Processor platforms

    A platform is a family of processor sockets, known by how their names
    start.  A request that does not ask for the one platform with a name of
    its own gets the other. -/

namespace PcAssembly

/-- A family of sockets. -/
inductive Platform where
  | intel
  | amd
  deriving DecidableEq, Repr

namespace Platform

/-- The platform of a request: `intel`, in any letter case and with blanks
    around it, or else the other one. -/
def ofFilter (filter : Option String) : Platform :=
  match filter with
  | some word =>
      if Text.lowered (Text.trimmed word) == "intel" then .intel else .amd
  | none => .amd

/-- How the names of the platform's sockets start. -/
def socketStart : Platform → String
  | .intel => "LGA"
  | .amd => "AM"

/-- The socket belongs to the platform. -/
def matchesSocket (platform : Platform) (socket : String) : Bool :=
  Text.startsWith platform.socketStart socket

end Platform

end PcAssembly
