import PcAssembly.Json.Fields
import PcAssembly.Json.Reader

/-! # Price series

    A series is a list of average prices with a label each; a chart is the
    series of one part of a build.  A price service sends a series as an
    array of rows, in which the label may be named in three ways. -/

namespace PcAssembly

/-- An average price. -/
structure PricePoint where
  date : String
  avgPrice : Decimal
  deriving DecidableEq

/-- The series of one part. -/
structure PriceChart where
  partType : String
  series : List PricePoint
  deriving DecidableEq

namespace PricePoint

/-- The fields of a price, in order. -/
def fieldNames : List String := ["date", "avgPrice"]

/-- The price in a data value whose fields have these names. -/
def ofLayout? (layout : Json.Layout) (value : Json) : Option PricePoint := do
  match ← value.fields? layout with
  | [date, avgPrice] =>
      return {
        date := ← Json.required Json.string? date
        avgPrice := ← Json.required Json.decimal? avgPrice }
  | _ => none

/-- The price in a data value. -/
def ofJson? : Json → Option PricePoint :=
  ofLayout? (Json.Layout.plain fieldNames)

/-- The price in a row of a price service. -/
def ofRow? : Json → Option PricePoint :=
  ofLayout? [["bucket", "bucketLabel", "date"], ["avgPrice"]]

/-- The price as a value. -/
def toJson (point : PricePoint) : Json :=
  .record (fieldNames.zip [.text point.date, .ofDecimal point.avgPrice])

/-- The series that a price service sends. -/
def seriesOfText? (text : String) : Option (List PricePoint) := do
  (← Json.ofText? text).list? ofRow?

end PricePoint

namespace PriceChart

/-- The fields of a chart, in order. -/
def fieldNames : List String := ["partType", "series"]

/-- The chart in a data value. -/
def ofJson? (value : Json) : Option PriceChart := do
  match ← value.fields? (Json.Layout.plain fieldNames) with
  | [partType, series] =>
      return {
        partType := ← Json.required Json.string? partType
        series := ← Json.required (Json.list? PricePoint.ofJson?) series }
  | _ => none

/-- The chart as a value. -/
def toJson (chart : PriceChart) : Json :=
  .record (fieldNames.zip
    [.text chart.partType, .array (chart.series.map PricePoint.toJson)])

end PriceChart

end PcAssembly
