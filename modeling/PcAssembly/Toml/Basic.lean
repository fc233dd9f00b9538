import PcAssembly.Number.Binary64

/-! # Configuration documents

    A configuration document is a tree of tables.  A table remembers how it
    came about, because that decides what later lines may still add to it:
    a table that was written out whole is closed, one that was only implied
    by a longer name may still get its own header. -/

namespace PcAssembly

namespace Toml

/-- A value without parts. -/
inductive Scalar where
  | string (value : String)
  | integer (value : Int)
  /-- A float; none if its literal is too large for a double. -/
  | float (value : Option Float)
  | boolean (value : Bool)
  /-- A date, a time or both. -/
  | moment

/-- How a table came about. -/
inductive Origin where
  /-- By a header of its own. -/
  | header
  /-- By the header of a table inside it. -/
  | implied
  /-- By a dotted key. -/
  | dotted
  /-- Between braces. -/
  | inline
  deriving DecidableEq, Repr

end Toml

/-- A node of a document.  An array is a list of values, or a list of tables
    that headers keep adding to. -/
inductive Toml where
  | scalar (value : Toml.Scalar)
  | array (ofTables : Bool) (items : List Toml)
  | table (origin : Toml.Origin) (members : List (String × Toml))

namespace Toml

instance : Inhabited Toml := ⟨.scalar (.boolean false)⟩

/-- The members of a table. -/
abbrev Members := List (String × Toml)

/-- The member with a name. -/
def member? (members : Members) (name : String) : Option Toml :=
  (members.find? fun member => member.1 == name).map Prod.snd

/-- The members with one of them replaced, or added at the end. -/
def setMember (members : Members) (name : String) (value : Toml) : Members :=
  if members.any fun member => member.1 == name then
    members.map fun member => if member.1 == name then (name, value) else member
  else members ++ [(name, value)]

mutual

/-- Every number in the value has a width it can be read in. -/
def isReadable : Toml → Bool
  | .scalar (.integer i) => Int64.minValue.toInt ≤ i && i < UInt64.size
  | .scalar (.float none) => false
  | .scalar _ => true
  | .array _ items => areReadableItems items
  | .table _ members => areReadableMembers members

/-- Every item of an array is readable. -/
def areReadableItems : List Toml → Bool
  | [] => true
  | item :: rest => item.isReadable && areReadableItems rest

/-- Every member of a table is readable. -/
def areReadableMembers : List (String × Toml) → Bool
  | [] => true
  | (_, item) :: rest => item.isReadable && areReadableMembers rest

end

end Toml

end PcAssembly
