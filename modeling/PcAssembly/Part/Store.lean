import Std.Data.HashMap
import PcAssembly.Part.Data
import PcAssembly.Json.Reader

/-! # The parts that are known

    A store files every part under its category and an id, so equal ids in
    two categories are two parts.  A later entry for the same place replaces
    the earlier one.  A parts file is an array of records with an id each; it
    is read as a whole or not at all. -/

namespace PcAssembly

/-- Finds a part by category and id. -/
abbrev PartLookup := Category → Int64 → Option Part

/-- Known parts, each under its own category. -/
structure PartStore where
  parts : Std.HashMap (Category × Int64) Part

namespace PartStore

/-- The store without parts. -/
def empty : PartStore := ⟨∅⟩

instance : Inhabited PartStore := ⟨empty⟩

/-- Files a part under its category and an id. -/
def insert (store : PartStore) (id : Int64) (part : Part) : PartStore :=
  ⟨store.parts.insert (part.category, id) part⟩

/-- The part filed under a category and an id. -/
def get? (store : PartStore) : PartLookup := fun category id =>
  store.parts[(category, id)]?

/-- How many parts there are. -/
def size (store : PartStore) : Nat :=
  store.parts.size

/-- One entry of a parts file. -/
structure Entry where
  id : Int64
  part : Part

/-- In a parts file the category may also be given by its position. -/
def categoryOfEntry? : Json → Option Category
  | .number (.integer index) => Category.ofIndex? index
  | value => Part.categoryOfKey? value

/-- An entry is an object that is kept whole, one level inside the file. -/
def Entry.ofJson? (value : Json) : Option Entry :=
  match value with
  | .object members => do
      if value.isKept 1 then
        let id ← Json.required Json.int64? (← Json.field? members ["id"])
        return { id, part := ← Part.ofRecord? categoryOfEntry? value }
      else none
  | _ => none

/-- The entries of a parts file. -/
def entriesOfText? (text : String) : Option (List Entry) := do
  (← Json.ofText? text).list? Entry.ofJson?

/-- The store with the entries filed in their order. -/
def ofEntries (entries : List Entry) : PartStore :=
  entries.foldl (fun store entry => store.insert entry.id entry.part) empty

/-- The store that a parts file describes. -/
def ofText? (text : String) : Option PartStore :=
  (entriesOfText? text).map ofEntries

theorem get?_insert (store : PartStore) (id id' : Int64) (part : Part) (category : Category) :
    (store.insert id part).get? category id' =
      if part.category = category ∧ id = id' then some part else store.get? category id' := by
  simp [insert, get?, Std.HashMap.getElem?_insert]

end PartStore

end PcAssembly
