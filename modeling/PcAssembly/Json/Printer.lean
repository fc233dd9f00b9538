import PcAssembly.Json.Text

/-! # Writing data texts

    A value is written with one of two spacings: without any blank, or with
    one item per line, two blanks deeper for every level.  Empty arrays and
    objects stay on one line in both.  A double without a finite value is
    written as null, and so is what no reading keeps. -/

namespace PcAssembly.Json

open PcAssembly.Number

/-- A number in digits. -/
def Number.write : Number → List Char
  | .integer i => intDigits i
  | .double x => (Binary64.dataText? x).getD "null".toList
  | .beyondRange => "null".toList

/-- A value without parts. -/
def writeScalar : Json → List Char
  | .bool true => "true".toList
  | .bool false => "false".toList
  | .number n => n.write
  | .string (some s) => Quoted.write s
  | _ => "null".toList

/-- The name of a member as it is written. -/
def writeName (name : Quoted) : List Char :=
  Quoted.write (name.getD "")

/-- The blanks of a written value: those in front of every item and of what
    closes a list of items, given how deep they stand, and those behind the
    colon of a member. -/
structure Spacing where
  line : Nat → List Char
  colon : List Char

/-- No blanks. -/
def Spacing.tight : Spacing := ⟨fun _ => [], []⟩

/-- One item per line, two blanks deeper for every level. -/
def Spacing.indented : Spacing := ⟨fun level => '\n' :: List.replicate (2 * level) ' ', [' ']⟩

mutual

/-- The value with this spacing, from inside the given level. -/
def write (spacing : Spacing) (level : Nat) : Json → List Char
  | .array [] => ['[', ']']
  | .array items =>
      '[' :: writeItems spacing (level + 1) items ++ spacing.line level ++ [']']
  | .object [] => ['\x7b', '\x7d']
  | .object members =>
      '\x7b' :: writeMembers spacing (level + 1) members ++ spacing.line level ++ ['\x7d']
  | value => writeScalar value

/-- The items of an array with commas between them. -/
def writeItems (spacing : Spacing) (level : Nat) : List Json → List Char
  | [] => []
  | [item] => spacing.line level ++ item.write spacing level
  | item :: rest =>
      spacing.line level ++ item.write spacing level ++ ',' :: writeItems spacing level rest

/-- The members of an object with commas between them. -/
def writeMembers (spacing : Spacing) (level : Nat) : List (Quoted × Json) → List Char
  | [] => []
  | [(name, item)] =>
      spacing.line level ++ writeName name ++ ':' :: spacing.colon ++ item.write spacing level
  | (name, item) :: rest =>
      spacing.line level ++ writeName name ++ ':' :: spacing.colon ++ item.write spacing level ++
        ',' :: writeMembers spacing level rest

end

/-- The text of a value, without blanks. -/
def compact (value : Json) : String :=
  String.ofList (value.write .tight 0)

/-- The text of a value, one item per line. -/
def pretty (value : Json) : String :=
  String.ofList (value.write .indented 0)

end PcAssembly.Json
