import PcAssembly.Json.Fields

/-! # Selections of parts

    A selection names parts by id: one for each slot that has been filled,
    and any number of drives.  It may be incomplete. -/

namespace PcAssembly

/-- The part ids chosen so far. -/
structure Selection where
  cpu : Option Int64 := none
  motherboard : Option Int64 := none
  ram : Option Int64 := none
  gpu : Option Int64 := none
  psu : Option Int64 := none
  chassis : Option Int64 := none
  cooler : Option Int64 := none
  storage : List Int64 := []
  deriving DecidableEq, Repr, Inhabited

namespace Selection

/-- The fields of a selection, in order. -/
def fieldNames : List String :=
  ["cpu", "motherboard", "ram", "gpu", "psu", "case", "cooler", "storage"]

/-- An id, null, or no field at all. -/
def id? : Option Json → Option (Option Int64) :=
  Json.optional none (Json.nullable? Json.int64?)

/-- The selection in a data value; a field that is missing is unfilled. -/
def ofJson? (value : Json) : Option Selection := do
  match ← value.fields? (Json.Layout.plain fieldNames) with
  | [cpu, motherboard, ram, gpu, psu, chassis, cooler, storage] =>
      return {
        cpu := ← id? cpu
        motherboard := ← id? motherboard
        ram := ← id? ram
        gpu := ← id? gpu
        psu := ← id? psu
        chassis := ← id? chassis
        cooler := ← id? cooler
        storage := ← Json.optional [] (Json.list? Json.int64?) storage }
  | _ => none

/-- The selection as a value, with null for unfilled slots. -/
def toJson (selection : Selection) : Json :=
  let id := Json.ofOption Json.ofInt64
  .record (fieldNames.zip
    [id selection.cpu, id selection.motherboard, id selection.ram, id selection.gpu,
     id selection.psu, id selection.chassis, id selection.cooler,
     .array (selection.storage.map Json.ofInt64)])

end Selection

end PcAssembly
