import PcAssembly.Number.Double
import PcAssembly.Price.Series
import PcAssembly.Selection

/-! # Finished builds

    A finished build says which parts and which products it consists of, what
    it costs, how it was scored and why it was chosen.  The products are
    listed by slot, in the order of the slots' names. -/

namespace PcAssembly

/-- Products by the name of their slot, sorted by name. -/
abbrev PartList := List (String × Int64)

namespace PartList

/-- The list with a product for a slot; one that was there is replaced. -/
def insert (slot : String) (productId : Int64) : PartList → PartList
  | [] => [(slot, productId)]
  | (name, product) :: rest =>
      if slot < name then (slot, productId) :: (name, product) :: rest
      else if slot = name then (slot, productId) :: rest
      else (name, product) :: insert slot productId rest

/-- The sorted list of some entries; of entries for one slot the last counts. -/
def ofEntries (entries : List (String × Int64)) : PartList :=
  entries.foldl (fun parts entry => insert entry.1 entry.2 parts) []

/-- The products in a data value, an object of ids. -/
def ofJson? : Json → Option PartList
  | .object members => do
      let entries ← members.mapM fun (name, value) => do
        return (← name, ← value.int64?)
      return ofEntries entries
  | _ => none

/-- The products as a value. -/
def toJson (parts : PartList) : Json :=
  .record (parts.map fun (slot, productId) => (slot, .ofInt64 productId))

end PartList

/-- A finished build. -/
structure BuildResult where
  selection : Selection
  parts : PartList
  total : Decimal
  requiredPsuWattage : UInt32
  compositeScore : Double
  rationale : List String
  priceCharts : List PriceChart

namespace BuildResult

/-- The fields of a finished build, in order. -/
def fieldNames : List String :=
  ["selection", "parts", "total", "requiredPsuWattage", "compositeScore", "rationale",
   "priceCharts"]

/-- The finished build in a data value. -/
def ofJson? (value : Json) : Option BuildResult := do
  match ← value.fields? (Json.Layout.plain fieldNames) with
  | [selection, parts, total, requiredPsuWattage, compositeScore, rationale, priceCharts] =>
      return {
        selection := ← Json.required Selection.ofJson? selection
        parts := ← Json.required PartList.ofJson? parts
        total := ← Json.required Json.decimal? total
        requiredPsuWattage := ← Json.required Json.uint32? requiredPsuWattage
        compositeScore := .ofFloat (← Json.required Json.float? compositeScore)
        rationale := ← Json.required (Json.list? Json.string?) rationale
        priceCharts := ← Json.required (Json.list? PriceChart.ofJson?) priceCharts }
  | _ => none

/-- The finished build as a value. -/
def toJson (result : BuildResult) : Json :=
  .record (fieldNames.zip
    [result.selection.toJson, result.parts.toJson, .ofDecimal result.total,
     .ofUInt32 result.requiredPsuWattage, .double result.compositeScore.toFloat,
     .array (result.rationale.map Json.text),
     .array (result.priceCharts.map PriceChart.toJson)])

end BuildResult

end PcAssembly
