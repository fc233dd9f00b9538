import PcAssembly.Json.Fields
import PcAssembly.Text.Blank

/-! # The eight slots of a build

    Every part belongs to one of eight categories.  Their order is the order
    of every table in the library, and a category is known by its key, a
    small English word. -/

namespace PcAssembly

/-- A slot of a build.  The chassis is the case the parts are built into. -/
inductive Category where
  | cpu
  | motherboard
  | ram
  | gpu
  | psu
  | chassis
  | cooler
  | storage
  deriving DecidableEq, Repr, Hashable

namespace Category

/-- All categories, in order. -/
def all : List Category :=
  [.cpu, .motherboard, .ram, .gpu, .psu, .chassis, .cooler, .storage]

/-- The word for a category. -/
def key : Category → String
  | .cpu => "cpu"
  | .motherboard => "motherboard"
  | .ram => "ram"
  | .gpu => "gpu"
  | .psu => "psu"
  | .chassis => "case"
  | .cooler => "cooler"
  | .storage => "storage"

/-- The category with exactly this key. -/
def ofKey? (key : String) : Option Category :=
  all.find? fun category => category.key == key

/-- The category a person names: blanks around the key and the case of its
    letters do not matter. -/
def ofText? (text : String) : Option Category :=
  ofKey? (Text.lowered (Text.trimmed text))

/-- The category at a position of the order. -/
def ofIndex? (index : Int) : Option Category :=
  if index < 0 then none else all[index.toNat]?

/-- A category in a data text is its key. -/
def ofJson? (value : Json) : Option Category :=
  (value.word? Json.isNull).bind ofKey?

/-- The key of a category as a value. -/
def toJson (category : Category) : Json := .text category.key

theorem mem_all (category : Category) : category ∈ all := by
  cases category <;> decide

theorem ofKey?_key (category : Category) : ofKey? category.key = some category := by
  cases category <;> decide

theorem key_of_ofKey? {key : String} {category : Category} (h : ofKey? key = some category) :
    category.key = key := by
  simpa using List.find?_some h

end Category

end PcAssembly
