import PcAssembly.Part.Basic

/-! # Parts in data texts

    A part is a record with its category among its fields, so the whole
    record is kept until the category is known: it must be sound and not too
    deep even where nobody looks.  As an array it starts with the category.
    The socket list of a cooler is read leniently, and never makes a record
    unreadable. -/

namespace PcAssembly

/-- The spellings of each kind of drive; every other word is a kind of its
    own. -/
def DriveKind.ofWord (word : String) : DriveKind :=
  if ["NVMe", "nvme", "NVME"].contains word then .nvme
  else if ["SATA", "sata"].contains word then .sata
  else .other

/-- The word for a kind of drive. -/
def DriveKind.word : DriveKind → String
  | .nvme => "NVMe"
  | .sata => "SATA"
  | .other => "Other"

/-- A kind of drive in a kept record. -/
def DriveKind.ofJson? (value : Json) : Option DriveKind :=
  (value.word? Json.isNullOrEmpty).map ofWord

/-- The words of a list that are left once blanks are trimmed off. -/
def socketWords (words : List String) : List String :=
  (words.map Text.trimmed).filter fun word => !word.isEmpty

/-- The sockets a cooler names: the texts of an array, or the words of one
    text between commas.  Anything else names none. -/
def socketsOf : Json → List String
  | .array items => socketWords (items.filterMap Json.string?)
  | .string (some words) => socketWords (Text.splitString ',' words)
  | _ => []

namespace Category

/-- The fields of a fact sheet, in order. -/
def fieldNames : Category → List String
  | .cpu => ["socket", "tdp_watts", "perf_score"]
  | .motherboard =>
      ["socket", "ram_type", "ram_max_freq", "m2_slots", "pcie_slots", "form_factor"]
  | .ram => ["ram_type", "freq_mhz", "perf_score"]
  | .gpu => ["length_mm", "slots", "tdp_watts", "perf_score"]
  | .psu => ["wattage", "form_factor"]
  | .chassis => ["gpu_max_length_mm", "cooler_max_height_mm", "psu_form_factor"]
  | .cooler => ["height_mm", "supported_sockets"]
  | .storage => ["kind", "perf_score"]

/-- A fact sheet from the values of its fields. -/
def factsOfFields? : (category : Category) → List (Option Json) → Option category.Facts
  | .cpu, [socket, tdpWatts, perfScore] => do
      return {
        socket := ← Json.required Json.string? socket
        tdpWatts := ← Json.required Json.uint32? tdpWatts
        perfScore := ← Json.required Json.float? perfScore }
  | .motherboard, [socket, ramType, ramMaxFreq, m2Slots, pcieSlots, formFactor] => do
      return {
        socket := ← Json.required Json.string? socket
        ramType := ← Json.required Json.string? ramType
        ramMaxFreq := ← Json.required Json.uint32? ramMaxFreq
        m2Slots := ← Json.required Json.uint32? m2Slots
        pcieSlots := ← Json.required Json.uint32? pcieSlots
        formFactor := ← Json.required Json.string? formFactor }
  | .ram, [ramType, freqMhz, perfScore] => do
      return {
        ramType := ← Json.required Json.string? ramType
        freqMhz := ← Json.required Json.uint32? freqMhz
        perfScore := ← Json.required Json.float? perfScore }
  | .gpu, [lengthMm, slots, tdpWatts, perfScore] => do
      return {
        lengthMm := ← Json.required Json.uint32? lengthMm
        slots := ← Json.required Json.uint32? slots
        tdpWatts := ← Json.required Json.uint32? tdpWatts
        perfScore := ← Json.required Json.float? perfScore }
  | .psu, [wattage, formFactor] => do
      return {
        wattage := ← Json.required Json.uint32? wattage
        formFactor := ← Json.required Json.string? formFactor }
  | .chassis, [gpuMaxLengthMm, coolerMaxHeightMm, psuFormFactor] => do
      return {
        gpuMaxLengthMm := ← Json.required Json.uint32? gpuMaxLengthMm
        coolerMaxHeightMm := ← Json.required Json.uint32? coolerMaxHeightMm
        psuFormFactor := ← Json.required Json.string? psuFormFactor }
  | .cooler, [heightMm, supportedSockets] => do
      return {
        heightMm := ← Json.required Json.uint32? heightMm
        supportedSockets := (supportedSockets.map socketsOf).getD [] }
  | .storage, [kind, perfScore] => do
      return {
        kind := ← Json.required DriveKind.ofJson? kind
        perfScore := ← Json.required Json.float? perfScore }
  | _, _ => none

/-- A fact sheet as a record of its own. -/
def factsOfJson? (category : Category) (value : Json) : Option category.Facts := do
  category.factsOfFields? (← value.fields? (Json.Layout.plain category.fieldNames))

end Category

namespace Part

/-- The part with this fact sheet. -/
def ofFacts : (category : Category) → category.Facts → Part
  | .cpu, facts => .cpu facts
  | .motherboard, facts => .motherboard facts
  | .ram, facts => .ram facts
  | .gpu, facts => .gpu facts
  | .psu, facts => .psu facts
  | .chassis, facts => .chassis facts
  | .cooler, facts => .cooler facts
  | .storage, facts => .storage facts

/-- A part record whose category is read by `readCategory`. -/
def ofRecord? (readCategory : Json → Option Category) : Json → Option Part
  | .object members => do
      let category ← Json.required readCategory (← Json.field? members ["category"])
      return ofFacts category (← category.factsOfJson? (.object members))
  | .array (category :: rest) => do
      let category ← readCategory category
      return ofFacts category (← category.factsOfJson? (.array rest))
  | _ => none

/-- The category of a part record: its key, written as a text. -/
def categoryOfKey? (value : Json) : Option Category :=
  value.string?.bind Category.ofKey?

/-- A part on its own in a data text. -/
def ofJson? (value : Json) : Option Part :=
  if value.isKept 0 then ofRecord? categoryOfKey? value else none

/-- The values of the fields of a part, in the order of its fact sheet. -/
def fieldValues : Part → List Json
  | .cpu facts => [.text facts.socket, .ofUInt32 facts.tdpWatts, .double facts.perfScore]
  | .motherboard facts =>
      [.text facts.socket, .text facts.ramType, .ofUInt32 facts.ramMaxFreq,
       .ofUInt32 facts.m2Slots, .ofUInt32 facts.pcieSlots, .text facts.formFactor]
  | .ram facts => [.text facts.ramType, .ofUInt32 facts.freqMhz, .double facts.perfScore]
  | .gpu facts =>
      [.ofUInt32 facts.lengthMm, .ofUInt32 facts.slots, .ofUInt32 facts.tdpWatts,
       .double facts.perfScore]
  | .psu facts => [.ofUInt32 facts.wattage, .text facts.formFactor]
  | .chassis facts =>
      [.ofUInt32 facts.gpuMaxLengthMm, .ofUInt32 facts.coolerMaxHeightMm,
       .text facts.psuFormFactor]
  | .cooler facts =>
      [.ofUInt32 facts.heightMm, .array (facts.supportedSockets.map Json.text)]
  | .storage facts => [.text facts.kind.word, .double facts.perfScore]

/-- A part as a record: its category, then its fields. -/
def toJson (part : Part) : Json :=
  .record (("category", part.category.toJson)
    :: part.category.fieldNames.zip part.fieldValues)

end Part

end PcAssembly
