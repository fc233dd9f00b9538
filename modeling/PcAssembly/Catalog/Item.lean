import PcAssembly.Json.Fields

/-! # Catalog items

    A catalog item is a product for sale: its price, how many are in stock,
    and a tag that says which part it is.  The tag is kept as it was
    written. -/

namespace PcAssembly

/-- A product for sale. -/
structure CatalogItem where
  productId : Int64
  price : Decimal
  stock : Int64
  componentTag : String
  deriving DecidableEq

namespace CatalogItem

/-- The fields of an item, in order. -/
def fieldNames : List String := ["productId", "price", "stock", "componentTag"]

/-- The item in a data value. -/
def ofJson? (value : Json) : Option CatalogItem := do
  match ← value.fields? (Json.Layout.plain fieldNames) with
  | [productId, price, stock, componentTag] =>
      return {
        productId := ← Json.required Json.int64? productId
        price := ← Json.required Json.decimal? price
        stock := ← Json.required Json.int64? stock
        componentTag := ← Json.required Json.string? componentTag }
  | _ => none

/-- The item as a value. -/
def toJson (item : CatalogItem) : Json :=
  .record (fieldNames.zip
    [.ofInt64 item.productId, .ofDecimal item.price, .ofInt64 item.stock,
     .text item.componentTag])

end CatalogItem

end PcAssembly
