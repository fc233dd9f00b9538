import PcAssembly.Number.DoubleText

/-! # Data values

    The value a data text stands for.  Reading keeps two things that a later
    stage has to judge: a text with a surrogate escape that has no partner,
    and a number too large for a double.  Both are harmless in a field that
    nobody looks at, and an error in one that is kept. -/

namespace PcAssembly

namespace Json

/-- A number of a data text.  Whole literals that fit in 64 bits are
    integers; every other literal is a double, if it has a finite one. -/
inductive Number where
  | integer (value : Int)
  | double (value : Float)
  | beyondRange

/-- The content of a quoted text; none if an escape in it names one half of
    a surrogate pair and the other half is not there. -/
abbrev Quoted := Option String

end Json

/-- A data value.  The members of an object keep their order and their
    repetitions. -/
inductive Json where
  | null
  | bool (value : Bool)
  | number (value : Json.Number)
  | string (value : Json.Quoted)
  | array (items : List Json)
  | object (members : List (Json.Quoted × Json))

namespace Json

instance : Inhabited Json := ⟨.null⟩

mutual

/-- How many arrays and objects stand around the innermost value, itself
    included. -/
def depth : Json → Nat
  | .array items => depthOfItems items + 1
  | .object members => depthOfMembers members + 1
  | _ => 0

/-- The largest depth among the items of an array. -/
def depthOfItems : List Json → Nat
  | [] => 0
  | item :: rest => max item.depth (depthOfItems rest)

/-- The largest depth among the members of an object. -/
def depthOfMembers : List (Quoted × Json) → Nat
  | [] => 0
  | (_, item) :: rest => max item.depth (depthOfMembers rest)

end

mutual

/-- Every text in the value is whole and every number has a value. -/
def isSound : Json → Bool
  | .number .beyondRange => false
  | .string none => false
  | .array items => areSoundItems items
  | .object members => areSoundMembers members
  | _ => true

/-- Every item of an array is sound. -/
def areSoundItems : List Json → Bool
  | [] => true
  | item :: rest => item.isSound && areSoundItems rest

/-- Every member of an object is sound, its name included. -/
def areSoundMembers : List (Quoted × Json) → Bool
  | [] => true
  | (name, item) :: rest => name.isSome && item.isSound && areSoundMembers rest

end

/-- The most levels of arrays and objects that a kept value may have. -/
def maxDepth : Nat := 127

/-- A value that may be kept whole, `outer` levels inside the text. -/
def isKept (outer : Nat) (value : Json) : Bool :=
  value.isSound && decide (value.depth + outer ≤ maxDepth)

/-- A text value. -/
def text (s : String) : Json := .string (some s)

/-- An integer value. -/
def int (i : Int) : Json := .number (.integer i)

/-- A double value. -/
def double (x : Float) : Json := .number (.double x)

/-- An object with whole names. -/
def record (members : List (String × Json)) : Json :=
  .object (members.map fun member => (some member.1, member.2))

end Json

end PcAssembly
