import PcAssembly.Catalog.File
import PcAssembly.Proofs.List.FailingMap
import PcAssembly.Proofs.Table.Records
import PcAssembly.Proofs.Text.Utf8

/-! # What a catalog file can fail on

    The first record of a catalog file is its header.  The file fails if the
    header is no text or does not name a column that has to be there, and on
    nothing else: no row below the header can spoil it.  As records that are
    complete stay what they are, whatever is appended to a file leaves the items
    alone that have been read before. -/

namespace PcAssembly

namespace CatalogFile

open Text (utf8 trimmed fromUTF8?_eq_some_iff)

/-- The text of a field is what its bytes spell, trimmed. -/
theorem fieldText?_eq_some_iff {field : Table.RawField} {text : String} :
    fieldText? field = some text ↔ ∃ s, field = utf8 s ∧ trimmed s = text := by
  rw [fieldText?, Option.map_eq_some_iff]
  simp only [fromUTF8?_eq_some_iff]

/-- Written texts are read back trimmed. -/
theorem recordTexts?_utf8 (texts : List String) :
    recordTexts? (texts.map utf8) = some (texts.map trimmed) := by
  refine mapM_eq_some_iff.mpr ?_
  rw [List.map_map, List.map_map]
  exact List.map_congr_left fun s _ => fieldText?_eq_some_iff.mpr ⟨s, rfl, rfl⟩

/-- A record is read as texts exactly if its fields spell some. -/
theorem recordTexts?_eq_some_iff {record : Table.RawRecord} {names : List String} :
    recordTexts? record = some names ↔
      ∃ texts : List String, record = texts.map utf8 ∧ texts.map trimmed = names := by
  constructor
  · intro h
    have hmap := mapM_eq_some_iff.mp h
    clear h
    induction record generalizing names with
    | nil => exact ⟨[], rfl, (List.map_eq_nil_iff.mp hmap.symm).symm⟩
    | cons field record ih =>
        cases names with
        | nil => exact nomatch hmap
        | cons name names =>
            rw [List.map_cons, List.map_cons, List.cons.injEq] at hmap
            obtain ⟨s, rfl, rfl⟩ := fieldText?_eq_some_iff.mp hmap.1
            obtain ⟨texts, rfl, rfl⟩ := ih hmap.2
            exact ⟨s :: texts, rfl, rfl⟩
  · rintro ⟨texts, rfl, rfl⟩
    exact recordTexts?_utf8 texts

/-- The header of a file: its first record, or one without fields. -/
def header (bytes : List UInt8) : Table.RawRecord := (Table.records bytes).headD []

/-- The columns that have to be there and are not, in order. -/
def missingColumns (names : List String) : List String :=
  requiredColumns.filter fun column => column ∉ names

/-- No column is missing if every required one is there. -/
theorem missingColumns_eq_nil_iff {names : List String} :
    missingColumns names = [] ↔ ∀ column ∈ requiredColumns, column ∈ names := by
  simp [missingColumns, List.filter_eq_nil_iff]

/-- What is wrong with a header. -/
inductive HeaderFault (header : Table.RawRecord) : CatalogFault → Prop where
  /-- Some field of it spells no text. -/
  | unreadable (h : ∀ texts : List String, header ≠ texts.map utf8) :
      HeaderFault header .unreadableHeader
  /-- It spells texts, and trimmed they leave out these columns. -/
  | missing {texts : List String} (spelled : header = texts.map utf8)
      (h : missingColumns (texts.map trimmed) ≠ []) :
      HeaderFault header (.missingColumns (missingColumns (texts.map trimmed)))

/-- A header that names every column that has to be there. -/
def Accepts (header : Table.RawRecord) (names : List String) : Prop :=
  ∃ texts : List String, header = texts.map utf8 ∧ texts.map trimmed = names ∧
    ∀ column ∈ requiredColumns, column ∈ names

/-- The first record is the header, and the others are rows. -/
theorem ofRecords_eq (records : List Table.RawRecord) :
    ofRecords records =
      match recordTexts? (records.headD []) with
      | none => .error .unreadableHeader
      | some names =>
          if missingColumns names = [] then .ok (items names records.tail)
          else .error (.missingColumns (missingColumns names)) := by
  cases records with
  | nil => rfl
  | cons first rows =>
      rw [ofRecords, List.headD_cons, List.tail_cons]
      cases recordTexts? first with
      | none => rfl
      | some names =>
          have hfilter : requiredColumns.filter (fun column => !names.contains column) =
              missingColumns names := by
            simp [missingColumns]
          simp only [hfilter]
          split
          · rename_i hnil
            rw [if_pos hnil]
          · rename_i hmissing
            rw [if_neg hmissing]

/-- A catalog is refused for a fault of its header alone. -/
theorem read_eq_error_iff {bytes : List UInt8} {fault : CatalogFault} :
    read bytes = .error fault ↔ HeaderFault (header bytes) fault := by
  rw [read, ofRecords_eq, ← header]
  cases hnames : recordTexts? (header bytes) with
  | none =>
      have hunreadable : ∀ texts : List String, header bytes ≠ texts.map utf8 := by
        intro texts heq
        rw [heq, recordTexts?_utf8] at hnames
        exact nomatch hnames
      constructor
      · intro h
        obtain rfl := Except.error.inj h
        exact .unreadable hunreadable
      · intro h
        cases h with
        | unreadable h => rfl
        | missing spelled h => exact absurd spelled (hunreadable _)
  | some names =>
      obtain ⟨texts, hspelled, rfl⟩ := recordTexts?_eq_some_iff.mp hnames
      dsimp only
      constructor
      · intro h
        split at h
        · exact nomatch h
        · rename_i hmissing
          obtain rfl := Except.error.inj h
          exact .missing hspelled hmissing
      · intro h
        cases h with
        | unreadable h => exact absurd hspelled (h texts)
        | missing spelled h =>
            rw [spelled, recordTexts?_utf8] at hnames
            rw [← Option.some.inj hnames, if_neg h]

/-- A catalog with an accepted header holds the items of its other records. -/
theorem read_eq_ok_iff {bytes : List UInt8} {found : List CatalogItem} :
    read bytes = .ok found ↔
      ∃ names, Accepts (header bytes) names ∧ found = items names (Table.records bytes).tail := by
  rw [read, ofRecords_eq, ← header]
  constructor
  · intro h
    split at h
    · exact nomatch h
    · rename_i names hnames
      obtain ⟨texts, hspelled, htrimmed⟩ := recordTexts?_eq_some_iff.mp hnames
      split at h
      · rename_i hnil
        exact ⟨names, ⟨texts, hspelled, htrimmed, missingColumns_eq_nil_iff.mp hnil⟩,
          (Except.ok.inj h).symm⟩
      · exact nomatch h
  · rintro ⟨names, ⟨texts, hspelled, rfl, hcolumns⟩, rfl⟩
    rw [hspelled, recordTexts?_utf8]
    exact if_pos (missingColumns_eq_nil_iff.mpr hcolumns)

/-! ## Files that are appended to -/

/-- A file without records accepts no header. -/
theorem records_ne_nil_of_accepts {bytes : List UInt8} {names : List String}
    (h : Accepts (header bytes) names) : Table.records bytes ≠ [] := by
  intro hnil
  obtain ⟨texts, hspelled, rfl, hcolumns⟩ := h
  rw [header, hnil] at hspelled
  obtain rfl : texts = [] := List.map_eq_nil_iff.mp hspelled.symm
  exact nomatch hcolumns "price" (by decide)

section

variable {bytes : List UInt8} (hends : Table.EndsRecord bytes)

include hends

/-- Bytes behind the first record leave the header as it is. -/
theorem header_append (hrecords : Table.records bytes ≠ []) (more : List UInt8) :
    header (bytes ++ more) = header bytes := by
  obtain ⟨first, rows, hfirst⟩ := List.exists_cons_of_ne_nil hrecords
  rw [header, header, hends.records_append, hfirst]
  rfl

/-- Further bytes are further records. -/
theorem tail_records_append (hrecords : Table.records bytes ≠ []) (more : List UInt8) :
    (Table.records (bytes ++ more)).tail =
      (Table.records bytes).tail ++ Table.recordsFrom more := by
  rw [hends.records_append, List.tail_append_of_ne_nil hrecords]

end

/-- **What a catalog file fails on is its header alone.**  The fault is read off
    the first record; bytes that are appended behind a record neither cause a
    fault nor mend one; and what they state comes behind the items that were read
    before, as if they stood in a file of their own. -/
theorem faults_confined (bytes : List UInt8) :
    (∀ fault, read bytes = .error fault ↔ HeaderFault (header bytes) fault) ∧
    (Table.EndsRecord bytes → Table.records bytes ≠ [] → ∀ more fault,
      read (bytes ++ more) = .error fault ↔ read bytes = .error fault) ∧
    (Table.EndsRecord bytes → ∀ names, Accepts (header bytes) names → ∀ more,
      ∃ found, read bytes = .ok found ∧
        read (bytes ++ more) = .ok (found ++ items names (Table.recordsFrom more))) := by
  refine ⟨fun fault => read_eq_error_iff, ?_, ?_⟩
  · intro hends hrecords more fault
    rw [read_eq_error_iff, read_eq_error_iff, header_append hends hrecords]
  · intro hends names haccepts more
    have hrecords := records_ne_nil_of_accepts haccepts
    refine ⟨_, read_eq_ok_iff.mpr ⟨names, haccepts, rfl⟩, ?_⟩
    refine read_eq_ok_iff.mpr ⟨names, (header_append hends hrecords more).symm ▸ haccepts, ?_⟩
    rw [tail_records_append hends hrecords, items, items, items, List.filterMap_append]

/-- A catalog with one item, whose tag is in quotes. -/
def sampleFile : List UInt8 :=
  utf8 "component_tag, price ,product_id\n\"a,\"\"b\"\"\",12.50,7\r"

/-- What is appended starts with a row that is too short and ends inside quotes. -/
theorem faults_confined_quotes :
    Table.EndsRecord sampleFile ∧ Table.records sampleFile ≠ [] ∧
    Accepts (header sampleFile) ["component_tag", "price", "product_id"] ∧
    ∃ found, read sampleFile = .ok found ∧
      found.map CatalogItem.componentTag = ["a,\"b\""] ∧
      read (sampleFile ++ utf8 "8,9\nc,10,11\n\"d,12,13\n") = .ok (found ++
        items ["component_tag", "price", "product_id"]
          (Table.recordsFrom (utf8 "8,9\nc,10,11\n\"d,12,13\n"))) ∧
      ∀ fault, read (sampleFile ++ utf8 "8,9\nc,10,11\n\"d,12,13\n") ≠ .error fault := by
  have hends : Table.EndsRecord sampleFile :=
    ⟨sampleFile.dropLast, 0x0D, by decide +kernel, rfl, by decide +kernel⟩
  have hrecords : Table.records sampleFile ≠ [] := by decide +kernel
  have haccepts : Accepts (header sampleFile) ["component_tag", "price", "product_id"] :=
    ⟨["component_tag", " price ", "product_id"], by decide +kernel, by decide +kernel,
      by decide +kernel⟩
  obtain ⟨-, hfaults, hitems⟩ := faults_confined sampleFile
  obtain ⟨found, hfound, hmore⟩ := hitems hends _ haccepts (utf8 "8,9\nc,10,11\n\"d,12,13\n")
  have htags : (read sampleFile).toOption.map (List.map CatalogItem.componentTag) =
      some ["a,\"b\""] := by
    decide +kernel
  rw [hfound] at htags
  refine ⟨hends, hrecords, haccepts, found, hfound, Option.some.inj htags, hmore, ?_⟩
  intro fault hfault
  exact nomatch hfound.symm.trans ((hfaults hends hrecords _ fault).mp hfault)

end CatalogFile

end PcAssembly
