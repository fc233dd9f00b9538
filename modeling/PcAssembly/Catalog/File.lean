import PcAssembly.Catalog.Item
import PcAssembly.FileFault
import PcAssembly.Table.Reader
import PcAssembly.Text.Blank

/-! # Catalog files

    A catalog file is a table whose first record names its columns.  Three
    columns have to be there; a fourth, the stock, may be.  After that no row
    can spoil the file: a row that does not decode is passed over, and the
    rows around it are read as if it were not there. -/

namespace PcAssembly

/-- Why there is no catalog. -/
inductive CatalogFault where
  /-- The first record is no text. -/
  | unreadableHeader
  /-- These columns are not there. -/
  | missingColumns (names : List String)
  /-- The file gives no bytes. -/
  | unreadableFile (path : String) (fault : FileFault)
  /-- A reason in words. -/
  | stated (message : String)
  deriving DecidableEq, Repr

/-- The reason in words. -/
def CatalogFault.message : CatalogFault → String
  | .unreadableHeader => "unreadable catalog header"
  | .missingColumns names => "catalog header is missing " ++ ", ".intercalate names
  | .unreadableFile path fault => s!"cannot read {path}: {fault.message}"
  | .stated message => message

namespace CatalogFile

open PcAssembly.Number

/-- The text of a field, without the blanks around it. -/
def fieldText? (field : Table.RawField) : Option String :=
  (String.fromUTF8? ⟨field.toArray⟩).map Text.trimmed

/-- The texts of a record, if all of its fields are texts. -/
def recordTexts? (record : Table.RawRecord) : Option (List String) :=
  record.mapM fieldText?

/-- The columns that a catalog has to have, in order. -/
def requiredColumns : List String := ["product_id", "price", "component_tag"]

/-- The column that a catalog may have. -/
def stockColumn : String := "stock"

/-- A whole number in a row: decimal with an optional sign, or hexadecimal
    after `0x`, where the sign follows the mark. -/
def integer? (text : String) : Option Int64 :=
  match text.toList with
  | '0' :: 'x' :: digits => (signed? natOfHex? digits).bind int64?
  | digits => int64OfText? digits

/-- The field of a row under a column.  There is none if the header does not
    name the column exactly once. -/
def cell? (header row : List String) (column : String) : Option String :=
  if header.count column = 1 then row[header.idxOf column]? else none

/-- The item that a row states.  The row must reach to the end of the header,
    and no known column may be named twice. -/
def item? (header row : List String) : Option CatalogItem :=
  if header.length ≤ row.length then do
    let productId ← (cell? header row "product_id").bind integer?
    let price ← (cell? header row "price").bind Decimal.ofText?
    let stock ←
      if header.contains stockColumn then (cell? header row stockColumn).bind integer?
      else some 0
    let componentTag ← cell? header row "component_tag"
    return { productId, price, stock, componentTag }
  else none

/-- The items of the rows below a header. -/
def items (header : List String) (rows : List Table.RawRecord) : List CatalogItem :=
  rows.filterMap fun row => (recordTexts? row).bind (item? header)

/-- The items of a table, or why it is no catalog. -/
def ofRecords : List Table.RawRecord → Except CatalogFault (List CatalogItem)
  | [] => .error (.missingColumns requiredColumns)
  | first :: rows =>
      match recordTexts? first with
      | none => .error .unreadableHeader
      | some header =>
          match requiredColumns.filter fun column => !header.contains column with
          | [] => .ok (items header rows)
          | missing => .error (.missingColumns missing)

/-- The items that a catalog file holds, or why it holds none. -/
def read (bytes : List UInt8) : Except CatalogFault (List CatalogItem) :=
  ofRecords (Table.records bytes)

end CatalogFile

end PcAssembly
