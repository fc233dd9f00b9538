import PcAssembly.Category
import PcAssembly.Json.Reader

/-! # Component tags

    A catalog item says in its tag which part it sells: a category and an id,
    as a small data text with a few accepted spellings.  A tag that is not
    exactly that is no tag, and its item is passed over. -/

namespace PcAssembly

/-- The part that a catalog item sells. -/
structure ComponentTag where
  category : Category
  componentId : Int64
  deriving DecidableEq, Repr

namespace ComponentTag

/-- The accepted names of the two fields. -/
def layout : Json.Layout :=
  [["category", "componentType", "component_type", "type"],
   ["component_id", "componentId", "id"]]

/-- The tag in a data value. -/
def ofJson? (value : Json) : Option ComponentTag := do
  match ← value.fields? layout with
  | [category, componentId] =>
      return {
        category := ← (← Json.required Json.string? category) |> Category.ofText?
        componentId := ← Json.required Json.int64? componentId }
  | _ => none

/-- The tag that a text states. -/
def ofText? (text : String) : Option ComponentTag :=
  (Json.ofText? text).bind ofJson?

end ComponentTag

end PcAssembly
