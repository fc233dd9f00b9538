import PcAssembly.Number.Integer
import PcAssembly.Toml.Reader

/-! # Sections of a document

    A section lists its settings by name in a table, or by position in an
    array.  Names that the section does not know are passed over, as long as
    what they hold can be read; so are the items of an array beyond the last
    setting, whatever they hold. -/

namespace PcAssembly.Toml

/-- The settings of a table, in the order of `names`. -/
def settings? (names : List String) (members : Members) : Option (List (Option Toml)) :=
  let unknown := members.filter fun member => !names.contains member.1
  if areReadableMembers unknown then some (names.map (member? members)) else none

/-- The settings of a section, in the order of `names`.  An array must have
    the first `least` of them; a moment is a section without known settings. -/
def section? (names : List String) (least : Nat) : Toml → Option (List (Option Toml))
  | .table _ members => settings? names members
  | .array _ items =>
      if least ≤ items.length then some ((List.range names.length).map fun i => items[i]?)
      else none
  | .scalar .moment => some (names.map fun _ => none)
  | .scalar _ => none

/-- A whole number. -/
def int? : Toml → Option Int
  | .scalar (.integer i) => some i
  | _ => none

/-- An unsigned 64-bit integer. -/
def uint64? (value : Toml) : Option UInt64 :=
  value.int?.bind Number.uint64?

/-- An unsigned 32-bit integer. -/
def uint32? (value : Toml) : Option UInt32 :=
  value.int?.bind Number.uint32?

/-- A truth value. -/
def bool? : Toml → Option Bool
  | .scalar (.boolean b) => some b
  | _ => none

/-- A text. -/
def string? : Toml → Option String
  | .scalar (.string s) => some s
  | _ => none

/-- A setting with a default. -/
def settingOr {α : Type} (default : α) (read : Toml → Option α) : Option Toml → Option α
  | none => some default
  | some value => read value

/-- A setting that may be missing. -/
def setting? {α : Type} (read : Toml → Option α) : Option Toml → Option (Option α)
  | none => some none
  | some value => (read value).map some

end PcAssembly.Toml
