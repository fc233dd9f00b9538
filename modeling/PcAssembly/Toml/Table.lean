import PcAssembly.Toml.Basic

/-! # Adding to tables

    A line of a document adds to a table that a path leads to.  On the way,
    tables that are missing are made; tables of some origins are closed.  A
    name is given a value once. -/

namespace PcAssembly.Toml

/-- The path still leads through a table of this origin: never through one
    between braces, and a dotted key only through tables without a header of
    their own. -/
def Origin.admits (dotted : Bool) : Origin → Bool
  | .header => !dotted
  | .implied => true
  | .dotted => true
  | .inline => false

/-- The items with the last one changed. -/
def changeLast? (change : Toml → Option Toml) : List Toml → Option (List Toml)
  | [] => none
  | [last] => (change last).map fun last => [last]
  | item :: rest => (changeLast? change rest).map (item :: ·)

/-- The table with the table at the end of a path changed.  A header path
    enters an array of tables at its last table. -/
def change? (dotted : Bool) (final : Origin → Members → Option (Origin × Members)) :
    List String → Toml → Option Toml
  | [], .table origin members => do
      let (origin, members) ← final origin members
      return .table origin members
  | name :: path, .table origin members => do
      let inner ← match member? members name with
        | none => change? dotted final path (.table (if dotted then .dotted else .implied) [])
        | some (.table inner innerMembers) =>
            if inner.admits dotted then change? dotted final path (.table inner innerMembers)
            else none
        | some (.array true items) =>
            if dotted then none
            else (changeLast? (change? dotted final path) items).map (.array true)
        | some _ => none
      return .table origin (setMember members name inner)
  | _, _ => none

/-- The table with a member that it did not have. -/
def add? (name : String) (value : Toml) (origin : Origin) (members : Members) :
    Option (Origin × Members) :=
  if (member? members name).isSome then none else some (origin, setMember members name value)

/-- The table with a value under a key, counted from the table itself.  A
    dotted key adds to tables that dotted keys have made. -/
def addPair? (path : List String) (name : String) (value : Toml) (table : Toml) :
    Option Toml :=
  change? (!path.isEmpty)
    (fun origin members =>
      if path.isEmpty || origin = .dotted then add? name value origin members else none)
    path table

/-- The document with the table that a header opens. -/
def openTable? (path : List String) (name : String) : Toml → Option Toml :=
  change? false (fun origin members =>
    match member? members name with
    | none => some (origin, setMember members name (.table .header []))
    | some (.table .implied inner) => some (origin, setMember members name (.table .header inner))
    | some _ => none) path

/-- The document with one more table in the array that a header names. -/
def openItem? (path : List String) (name : String) : Toml → Option Toml :=
  change? false (fun origin members =>
    match member? members name with
    | none => some (origin, setMember members name (.array true [.table .header []]))
    | some (.array true items) =>
        some (origin, setMember members name (.array true (items ++ [.table .header []])))
    | some _ => none) path

/-- The document with a value under a key of the table that is open. -/
def addUnder? (opened path : List String) (name : String) (value : Toml) :
    Toml → Option Toml :=
  change? false (fun origin members => do
    match ← addPair? path name value (.table origin members) with
    | .table origin members => some (origin, members)
    | _ => none) opened

/-- A key as the path to its table and its last step. -/
def splitKey? (key : List String) : Option (List String × String) :=
  key.getLast?.map fun name => (key.dropLast, name)

mutual

/-- The value, closed: what stands between braces takes no more members. -/
def closed : Toml → Toml
  | .table _ members => .table .inline (closedMembers members)
  | value => value

/-- The members of a closed table, themselves closed. -/
def closedMembers : List (String × Toml) → List (String × Toml)
  | [] => []
  | (name, value) :: rest => (name, value.closed) :: closedMembers rest

end

end PcAssembly.Toml
