import Mathlib.Data.List.NodupEquivFin
import PcAssembly.Proofs.Catalog.Header
import PcAssembly.Proofs.Decimal.Text
import PcAssembly.Proofs.Table.Text
import PcAssembly.Proofs.Text.Blank

/-! # Catalog files row by row

    A table whose fields are all quoted is read back byte by byte, so a catalog
    file can hold any text in any field.  Each row is read by itself, under the
    columns of the header wherever they stand: it states an item or is passed
    over, and the other rows do not notice.  A list of items that is written in
    this way is read back. -/

namespace PcAssembly.CatalogFile

open PcAssembly.Number
open Text (utf8 trimmed isBlank)

/-- Trimmed, the names of a header hold every column that has to be there once
    and the stock at most once, among any others. -/
structure IsCatalogHeader (header : List String) : Prop where
  required : ∀ column ∈ requiredColumns, (header.map trimmed).count column = 1
  stock : (header.map trimmed).count stockColumn ≤ 1

/-- Every column that is needed stands in a header. -/
theorem IsCatalogHeader.mem {header : List String} (h : IsCatalogHeader header) :
    ∀ column ∈ requiredColumns, column ∈ header.map trimmed := by
  intro column hcolumn
  have hcount := h.required column hcolumn
  exact List.count_pos_iff.mp (by omega)

/-- The row has this text under the column, once blanks are trimmed. -/
def Under (header row : List String) (column text : String) : Prop :=
  ∃ (index : Nat) (name field : String), header[index]? = some name ∧ trimmed name = column ∧
    row[index]? = some field ∧ trimmed field = text

/-- The row states the item: its texts under the four columns decode to the
    fields of the item; without a column for it the stock is zero. -/
structure States (header row : List String) (item : CatalogItem) : Prop where
  productId : ∃ text, Under header row "product_id" text ∧ integer? text = some item.productId
  price : ∃ text, Under header row "price" text ∧ Decimal.ofText? text = some item.price
  stock : (stockColumn ∈ header.map trimmed ∧
      ∃ text, Under header row stockColumn text ∧ integer? text = some item.stock) ∨
    stockColumn ∉ header.map trimmed ∧ item.stock = 0
  componentTag : Under header row "component_tag" item.componentTag

/-! ## What a row states -/

/-- A column that occurs once stands nowhere but where it is found. -/
theorem eq_idxOf_of_getElem? {names : List String} {column : String}
    (hcount : names.count column ≤ 1) {index : Nat} (hindex : names[index]? = some column) :
    index = names.idxOf column := by
  obtain ⟨hlength, hget⟩ := List.getElem?_eq_some_iff.mp hindex
  have hmem : column ∈ names := List.mem_of_getElem? hindex
  have hfound := List.idxOf_lt_length_of_mem hmem
  have hfirst : names.get ⟨names.idxOf column, hfound⟩ = column := List.idxOf_get hfound
  by_contra hne
  have htwice : List.Duplicate column names := by
    rw [List.duplicate_iff_exists_distinct_get]
    rcases Nat.lt_or_gt_of_ne hne with hlt | hgt
    · exact ⟨⟨index, hlength⟩, ⟨_, hfound⟩, hlt, hget.symm, hfirst.symm⟩
    · exact ⟨⟨_, hfound⟩, ⟨index, hlength⟩, hgt, hfirst.symm, hget.symm⟩
  have htwo := List.duplicate_iff_two_le_count.mp htwice
  omega

/-- A cell is found if its column is in the header once and the row reaches
    it. -/
theorem cell?_eq_some_iff {header row : List String} {column text : String}
    (hcount : (header.map trimmed).count column = 1) :
    cell? (header.map trimmed) (row.map trimmed) column = some text ↔
      Under header row column text := by
  rw [cell?, if_pos hcount, List.getElem?_map, Option.map_eq_some_iff]
  constructor
  · rintro ⟨field, hfield, htext⟩
    have hmem : column ∈ header.map trimmed := List.count_pos_iff.mp (by omega)
    have hname := List.getElem?_idxOf hmem
    rw [List.getElem?_map, Option.map_eq_some_iff] at hname
    obtain ⟨name, hname, hcolumn⟩ := hname
    exact ⟨_, name, field, hname, hcolumn, hfield, htext⟩
  · rintro ⟨index, name, field, hname, hcolumn, hfield, htext⟩
    have hat : (header.map trimmed)[index]? = some column := by
      rw [List.getElem?_map, hname, Option.map_some, hcolumn]
    rw [← eq_idxOf_of_getElem? (Nat.le_of_eq hcount) hat]
    exact ⟨field, hfield, htext⟩

/-- How many a row says are in stock. -/
def stock? (names row : List String) : Option Int64 :=
  if names.contains stockColumn then (cell? names row stockColumn).bind integer? else some 0

/-- An item is read column by column, from a row that is long enough. -/
theorem item?_eq (names row : List String) :
    item? names row =
      if names.length ≤ row.length then
        ((cell? names row "product_id").bind integer?).bind fun productId =>
          ((cell? names row "price").bind Decimal.ofText?).bind fun price =>
            (stock? names row).bind fun stock =>
              (cell? names row "component_tag").bind fun componentTag =>
                some { productId, price, stock, componentTag }
      else none := by
  rw [item?, stock?]
  cases names.contains stockColumn <;> rfl

/-- A row gives an item if its columns give what the item holds. -/
theorem item?_eq_some_iff {names row : List String} {item : CatalogItem} :
    item? names row = some item ↔
      names.length ≤ row.length ∧
        (cell? names row "product_id").bind integer? = some item.productId ∧
        (cell? names row "price").bind Decimal.ofText? = some item.price ∧
        stock? names row = some item.stock ∧
        cell? names row "component_tag" = some item.componentTag := by
  rw [item?_eq]
  constructor
  · intro h
    split at h
    · rename_i hlength
      obtain ⟨_, hid, h⟩ := Option.bind_eq_some_iff.mp h
      obtain ⟨_, hprice, h⟩ := Option.bind_eq_some_iff.mp h
      obtain ⟨_, hunits, h⟩ := Option.bind_eq_some_iff.mp h
      obtain ⟨_, htag, h⟩ := Option.bind_eq_some_iff.mp h
      obtain rfl := Option.some.inj h
      exact ⟨hlength, hid, hprice, hunits, htag⟩
    · exact nomatch h
  · rintro ⟨hlength, hid, hprice, hunits, htag⟩
    rw [if_pos hlength, hid, hprice, hunits, htag]
    rfl

/-- The item of a row under a header, both as they are written. -/
def rowItem? (header row : List String) : Option CatalogItem :=
  item? (header.map trimmed) (row.map trimmed)

/-- What is read of a cell is read of the text under its column. -/
theorem bind_cell?_eq_some_iff {header row : List String} {column : String}
    (hcount : (header.map trimmed).count column = 1) {α : Type} {read : String → Option α}
    {x : α} :
    (cell? (header.map trimmed) (row.map trimmed) column).bind read = some x ↔
      ∃ text, Under header row column text ∧ read text = some x := by
  rw [Option.bind_eq_some_iff]
  exact exists_congr fun text => and_congr_left fun _ => cell?_eq_some_iff hcount

/-- The stock of a row is what it says, or zero if nothing asks for it. -/
theorem stock?_eq_some_iff {header row : List String} (hheader : IsCatalogHeader header)
    {units : Int64} :
    stock? (header.map trimmed) (row.map trimmed) = some units ↔
      (stockColumn ∈ header.map trimmed ∧
          ∃ text, Under header row stockColumn text ∧ integer? text = some units) ∨
        stockColumn ∉ header.map trimmed ∧ units = 0 := by
  rw [stock?]
  by_cases hmem : stockColumn ∈ header.map trimmed
  · have hcount : (header.map trimmed).count stockColumn = 1 :=
      Nat.le_antisymm hheader.stock (List.count_pos_iff.mpr hmem)
    rw [if_pos (List.contains_iff_mem.mpr hmem), bind_cell?_eq_some_iff hcount]
    simp only [hmem, true_and, not_true, false_and, or_false]
  · rw [if_neg (mt List.contains_iff_mem.mp hmem), Option.some.injEq]
    simp only [hmem, false_and, not_false_eq_true, true_and, false_or, eq_comm]

/-- **A row that reaches to the end of the header decodes to the item that it
    states**, and to none if it states none. -/
theorem rowItem?_eq_some_iff {header row : List String} (hheader : IsCatalogHeader header)
    (hlength : header.length ≤ row.length) {item : CatalogItem} :
    rowItem? header row = some item ↔ States header row item := by
  have hreaches : (header.map trimmed).length ≤ (row.map trimmed).length := by
    rwa [List.length_map, List.length_map]
  rw [rowItem?, item?_eq_some_iff, stock?_eq_some_iff hheader,
    bind_cell?_eq_some_iff (hheader.required "product_id" (by decide)),
    bind_cell?_eq_some_iff (hheader.required "price" (by decide)),
    cell?_eq_some_iff (hheader.required "component_tag" (by decide))]
  constructor
  · rintro ⟨-, hid, hprice, hunits, htag⟩
    exact ⟨hid, hprice, hunits, htag⟩
  · rintro ⟨hid, hprice, hunits, htag⟩
    exact ⟨hreaches, hid, hprice, hunits, htag⟩

/-! ## What a file of rows holds -/

/-- The bytes of a catalog file with this header and these rows, all fields
    quoted. -/
def written (header : List String) (rows : List (List String)) : List UInt8 :=
  utf8 (Table.text (header :: rows))

/-- A written table is read row by row. -/
theorem read_written {header : List String} {rows : List (List String)}
    (hheader : IsCatalogHeader header) (hrows : ∀ row ∈ rows, row ≠ []) :
    read (written header rows) = .ok (rows.filterMap (rowItem? header)) := by
  have hnonempty : ∀ record ∈ (header :: rows).map (List.map utf8), record ≠ [] := by
    intro record hrecord hnil
    obtain ⟨texts, hmem, rfl⟩ := List.mem_map.mp hrecord
    obtain rfl := List.map_eq_nil_iff.mp hnil
    rcases List.mem_cons.mp hmem with rfl | hrow
    · exact nomatch hheader.mem "price" (by decide)
    · exact hrows [] hrow rfl
  have hrecords := Table.records_write hnonempty
  refine read_eq_ok_iff.mpr ⟨header.map trimmed, ⟨header, ?_, rfl, hheader.mem⟩, ?_⟩
  · rw [CatalogFile.header, written, Table.utf8_text, hrecords]
    rfl
  · rw [written, Table.utf8_text, hrecords, List.map_cons, List.tail_cons, items,
      List.filterMap_map]
    refine List.filterMap_congr fun row _ => ?_
    rw [Function.comp_apply, recordTexts?_utf8]
    rfl

/-! ## Writing items -/

theorem isBlank_hyphen : isBlank '-' = false := by decide

theorem isBlank_point : isBlank '.' = false := by decide

/-- An integer in a field. -/
def integerText (n : Int64) : String := String.ofList (intDigits n.toInt)

/-- The text of an id has no blanks around it. -/
theorem trimmed_integerText (n : Int64) : trimmed (integerText n) = integerText n := by
  refine Text.trimmed_eq_self fun c hc => ?_
  rw [integerText, String.toList_ofList] at hc
  by_cases hhyphen : c = '-'
  · rw [hhyphen, isBlank_hyphen]
  · by_cases hdigit : c.isDigit = true
    · exact Text.isBlank_of_isDigit hdigit
    · exact absurd hc (not_mem_intDigits hhyphen (Bool.eq_false_iff.mpr hdigit) n.toInt)

/-- The text of an id is read as the id. -/
theorem integer?_integerText (n : Int64) : integer? (integerText n) = some n := by
  rw [integer?, integerText, String.toList_ofList]
  split
  · rename_i digits heq
    have hmem : 'x' ∈ intDigits n.toInt := by
      rw [heq]
      exact List.mem_cons_of_mem _ List.mem_cons_self
    exact absurd hmem (not_mem_intDigits (by decide) rfl n.toInt)
  · exact int64OfText?_intDigits n

/-- The text of an amount has no blanks around it. -/
theorem trimmed_toText (x : Decimal) : trimmed x.toText = x.toText := by
  refine Text.trimmed_eq_self fun c hc => ?_
  rw [Decimal.toText, String.toList_ofList] at hc
  rcases Decimal.mem_digits hc with rfl | rfl | hdigit
  · exact isBlank_hyphen
  · exact isBlank_point
  · exact Text.isBlank_of_isDigit hdigit

/-- The text of an item under a column; under columns that nobody reads it is
    anything. -/
def cellText (filler : String → String) (item : CatalogItem) (column : String) : String :=
  if column = "product_id" then integerText item.productId
  else if column = "price" then item.price.toText
  else if column = stockColumn then integerText item.stock
  else if column = "component_tag" then item.componentTag
  else filler column

/-- The row of an item under a header. -/
def rowOf (header : List String) (filler : String → String) (item : CatalogItem) : List String :=
  header.map fun name => cellText filler item (trimmed name)

/-- Every column of a written row holds the trimmed text of its cell. -/
theorem under_rowOf {header : List String} {column : String}
    (hcolumn : column ∈ header.map trimmed) (filler : String → String) (item : CatalogItem) :
    Under header (rowOf header filler item) column (trimmed (cellText filler item column)) := by
  obtain ⟨name, hname, rfl⟩ := List.mem_map.mp hcolumn
  obtain ⟨index, hindex⟩ := List.getElem?_of_mem hname
  refine ⟨index, name, cellText filler item (trimmed name), hindex, rfl, ?_, rfl⟩
  rw [rowOf, List.getElem?_map, hindex, Option.map_some]

/-- The row of an item states it, if its tag has no blanks at its ends. -/
theorem states_rowOf {header : List String} (hheader : IsCatalogHeader header)
    (hstock : stockColumn ∈ header.map trimmed) (filler : String → String) {item : CatalogItem}
    (htag : trimmed item.componentTag = item.componentTag) :
    States header (rowOf header filler item) item := by
  constructor
  case productId =>
    refine ⟨_, under_rowOf (hheader.mem "product_id" (by decide)) filler item, ?_⟩
    show integer? (trimmed (integerText item.productId)) = some item.productId
    rw [trimmed_integerText, integer?_integerText]
  case price =>
    refine ⟨_, under_rowOf (hheader.mem "price" (by decide)) filler item, ?_⟩
    show Decimal.ofText? (trimmed item.price.toText) = some item.price
    rw [trimmed_toText, Decimal.ofText?_toText]
  case stock =>
    refine Or.inl ⟨hstock, _, under_rowOf hstock filler item, ?_⟩
    show integer? (trimmed (integerText item.stock)) = some item.stock
    rw [trimmed_integerText, integer?_integerText]
  case componentTag =>
    have hunder := under_rowOf (hheader.mem "component_tag" (by decide)) filler item
    have htext : trimmed (cellText filler item "component_tag") = item.componentTag := htag
    rwa [htext] at hunder

/-- **A catalog file is read row by row.**  Whatever its fields hold, it has the
    items that its rows state, in their order: a row that states none changes
    nothing about the others.  So a list of items whose tags have no blanks at
    their ends is read back, wherever the columns stand and whatever else stands
    between them. -/
theorem rows_decode (header : List String) (hheader : IsCatalogHeader header) :
    (∀ rows : List (List String), (∀ row ∈ rows, header.length ≤ row.length) →
      read (written header rows) = .ok (rows.filterMap (rowItem? header)) ∧
      ∀ row ∈ rows, ∀ item, rowItem? header row = some item ↔ States header row item) ∧
    (stockColumn ∈ header.map trimmed → ∀ (filler : String → String) (found : List CatalogItem),
      (∀ item ∈ found, trimmed item.componentTag = item.componentTag) →
        read (written header (found.map (rowOf header filler))) = .ok found) := by
  have hread : ∀ rows : List (List String), (∀ row ∈ rows, header.length ≤ row.length) →
      read (written header rows) = .ok (rows.filterMap (rowItem? header)) := by
    intro rows hrows
    refine read_written hheader fun row hrow hnil => ?_
    have hlength := hrows row hrow
    rw [hnil, List.length_nil, Nat.le_zero, List.length_eq_zero_iff] at hlength
    rw [hlength] at hheader
    exact nomatch hheader.required "price" (by decide)
  refine ⟨fun rows hrows => ⟨hread rows hrows, fun row hrow item =>
    rowItem?_eq_some_iff hheader (hrows row hrow)⟩, ?_⟩
  intro hstock filler found htags
  have hlength : ∀ item, header.length ≤ (rowOf header filler item).length := fun item =>
    Nat.le_of_eq (List.length_map _).symm
  rw [hread _ fun row hrow => ?_]
  · rw [List.filterMap_map]
    refine congrArg Except.ok ?_
    calc found.filterMap (rowItem? header ∘ rowOf header filler)
        = found.filterMap some := List.filterMap_congr fun item hitem =>
          (rowItem?_eq_some_iff hheader (hlength item)).mpr
            (states_rowOf hheader hstock filler (htags item hitem))
      _ = found := List.filterMap_some
  · obtain ⟨item, -, rfl⟩ := List.mem_map.mp hrow
    exact hlength item

/-- A header in an order of its own, with a column that nobody reads. -/
def mixedHeader : List String := ["note, \"old\"", "price", "component_tag ", "stock", "product_id"]

/-- Three rows, the second one without a price. -/
def mixedRows : List (List String) :=
  [["a,\"b\"", " 12.50", "\r\n\x7b\"id\": 1\x7d", "0x10", "7"], ["", "free", "t", "1", "8"],
   ["\n", "-3", "a \"b\" ", "-2", " 9 ", "more"]]

/-- What the first and the last row state. -/
def mixedItems : List CatalogItem :=
  [{ productId := 7, price := ⟨1250, 2, by decide, by decide⟩, stock := 16
     componentTag := "\x7b\"id\": 1\x7d" },
   { productId := 9, price := ⟨-3, 0, by decide, Decimal.zero.scale_le⟩, stock := -2
     componentTag := "a \"b\"" }]

/-- The row without a price is passed over, and what the others state can be
    written and read again. -/
theorem rows_decode_mixed :
    IsCatalogHeader mixedHeader ∧ (∀ row ∈ mixedRows, mixedHeader.length ≤ row.length) ∧
    stockColumn ∈ mixedHeader.map trimmed ∧
    (∀ item ∈ mixedItems, trimmed item.componentTag = item.componentTag) ∧
    read (written mixedHeader mixedRows) = .ok mixedItems ∧
    (∀ item ∈ mixedItems, ∃ row ∈ mixedRows, States mixedHeader row item) ∧
    read (written mixedHeader (mixedItems.map (rowOf mixedHeader fun _ => "\""))) =
      .ok mixedItems := by
  have hheader : IsCatalogHeader mixedHeader := ⟨by decide +kernel, by decide +kernel⟩
  have hrows : ∀ row ∈ mixedRows, mixedHeader.length ≤ row.length := by decide
  have hstock : stockColumn ∈ mixedHeader.map trimmed := by decide +kernel
  have htags : ∀ item ∈ mixedItems, trimmed item.componentTag = item.componentTag := by
    decide +kernel
  obtain ⟨hdecode, hwrite⟩ := rows_decode mixedHeader hheader
  obtain ⟨hread, hstates⟩ := hdecode mixedRows hrows
  have hitems : mixedRows.filterMap (rowItem? mixedHeader) = mixedItems := by decide +kernel
  refine ⟨hheader, hrows, hstock, htags, hitems ▸ hread, ?_, hwrite hstock _ _ htags⟩
  intro item hitem
  rw [← hitems] at hitem
  obtain ⟨row, hrow, hsome⟩ := List.mem_filterMap.mp hitem
  exact ⟨row, hrow, (hstates row hrow item).mp hsome⟩

end PcAssembly.CatalogFile
