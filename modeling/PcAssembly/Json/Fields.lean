import PcAssembly.Decimal.Reader
import PcAssembly.Json.Basic

/-! # Records in data texts

    A record is written as an object, whose members may come in any order
    among members nobody asked for, or as an array of the values in the order
    of the layout.  A field that is named twice, under whatever spellings,
    makes the record unreadable; a field that is not there is left to the
    reader of that field. -/

namespace PcAssembly.Json

open PcAssembly.Number

/-- The accepted names of every field of a record, in order. -/
abbrev Layout := List (List String)

/-- A layout in which every field has one name. -/
def Layout.plain (names : List String) : Layout :=
  names.map fun name => [name]

/-- The value of the field with these names: none inside if no member has one
    of them, none at all if two members do. -/
def field? (members : List (Quoted × Json)) (names : List String) : Option (Option Json) :=
  match members.filter fun member => member.1.any names.contains with
  | [] => some none
  | [member] => some (some member.2)
  | _ => none

/-- The values of the fields of a layout, in its order.  An array may be
    shorter than the layout, not longer. -/
def fields? (layout : Layout) : Json → Option (List (Option Json))
  | .object members =>
      if members.all fun member => member.1.isSome then
        layout.mapM (field? members)
      else none
  | .array items =>
      if items.length ≤ layout.length then
        some (items.map some ++ List.replicate (layout.length - items.length) none)
      else none
  | _ => none

/-- The value of a field that has to be there. -/
def required {α : Type} (read : Json → Option α) (field : Option Json) : Option α :=
  field.bind read

/-- The value of a field that may be missing. -/
def optional {α : Type} (default : α) (read : Json → Option α) : Option Json → Option α
  | none => some default
  | some value => read value

/-- A whole text. -/
def string? : Json → Option String
  | .string quoted => quoted
  | _ => none

/-- A truth value. -/
def bool? : Json → Option Bool
  | .bool b => some b
  | _ => none

/-- An integer literal. -/
def int? : Json → Option Int
  | .number (.integer i) => some i
  | _ => none

/-- A signed 64-bit integer. -/
def int64? (value : Json) : Option Int64 :=
  value.int?.bind PcAssembly.Number.int64?

/-- An unsigned 64-bit integer. -/
def uint64? (value : Json) : Option UInt64 :=
  value.int?.bind PcAssembly.Number.uint64?

/-- An unsigned 32-bit integer. -/
def uint32? (value : Json) : Option UInt32 :=
  value.int?.bind PcAssembly.Number.uint32?

/-- A number of either kind as a double. -/
def float? : Json → Option Float
  | .number (.integer i) => some (Float.ofInt i)
  | .number (.double x) => some x
  | _ => none

/-- An amount: an integer exactly, a double by its shortest digits, or a text
    that states an amount. -/
def decimal? : Json → Option Decimal
  | .number (.integer i) => Decimal.ofParts? i 0
  | .number (.double x) => Decimal.ofFloat? x
  | .string quoted => quoted.bind Decimal.ofText?
  | _ => none

/-- An array of values of one kind. -/
def list? {α : Type} (read : Json → Option α) : Json → Option (List α)
  | .array items => items.mapM read
  | _ => none

/-- A value or null. -/
def nullable? {α : Type} (read : Json → Option α) : Json → Option (Option α)
  | .null => some none
  | value => (read value).map some

/-- A word of a fixed list, written as a text or as the only name of an
    object whose value says nothing. -/
def word? (saysNothing : Json → Bool) : Json → Option String
  | .string quoted => quoted
  | .object [(name, value)] => if saysNothing value then name else none
  | _ => none

/-- Only null says nothing. -/
def isNull : Json → Bool
  | .null => true
  | _ => false

/-- Null and the empty object say nothing. -/
def isNullOrEmpty : Json → Bool
  | .null => true
  | .object [] => true
  | _ => false

/-- A value or null in place of nothing. -/
def ofOption {α : Type} (write : α → Json) : Option α → Json
  | none => .null
  | some value => write value

/-- A signed 64-bit integer as a value. -/
def ofInt64 (n : Int64) : Json := .int n.toInt

/-- An unsigned 32-bit integer as a value. -/
def ofUInt32 (n : UInt32) : Json := .int n.toNat

/-- An amount as a value: the double that stands for it. -/
def ofDecimal (x : Decimal) : Json := .double x.toFloat

end PcAssembly.Json
