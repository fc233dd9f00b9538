import PcAssembly.Build.Result
import PcAssembly.Price.History
import PcAssembly.Request
import PcAssembly.Search.Tally

/-! # Building by budget

    A request is answered in steps, and the first step that fails decides:
    the budget has to be positive, the catalog has to be there, every slot
    that must be filled needs a candidate, and some combination has to be
    feasible.  The best one becomes the result.  Price charts are added where
    the price service answers; they never change what is built. -/

namespace PcAssembly

/-- How builds are made. -/
structure EngineSettings where
  beamWidth : UInt64 := defaultBeamWidth
  buildTimeoutMs : UInt64 := 10000
  priceTimeoutMs : UInt64 := 2000
  priceWindowDays : UInt32 := 30
  deriving DecidableEq, Repr

/-- What a build is made from: the machine that scores it, the parts that are
    known, the catalog or why there is none, the price service, and the day of
    the request. -/
structure Workshop where
  machine : Machine
  lookup : PartLookup
  catalog : Except BuildError (List CatalogItem)
  prices : PriceService
  today : Date

namespace ChosenBuild

/-- The ids of the parts of a build. -/
def selection (build : ChosenBuild) : Selection :=
  let assembly := build.assembly
  { cpu := some assembly.cpu.componentId
    motherboard := some assembly.motherboard.componentId
    ram := some assembly.ram.componentId
    gpu := some assembly.gpu.componentId
    psu := some assembly.psu.componentId
    chassis := some assembly.chassis.componentId
    cooler := assembly.cooler.map Candidate.componentId
    storage := assembly.storage.map Candidate.componentId }

/-- The name of the slot of a drive, given how many come before it. -/
def driveSlot (before : Nat) : String :=
  s!"{Category.storage.key}{before + 1}"

/-- The products of a build.  A cooler is listed only if there is one. -/
def parts (build : ChosenBuild) : PartList :=
  let assembly := build.assembly
  let fixed :=
    [(Category.cpu.key, assembly.cpu.productId),
     (Category.motherboard.key, assembly.motherboard.productId),
     (Category.ram.key, assembly.ram.productId),
     (Category.gpu.key, assembly.gpu.productId),
     (Category.psu.key, assembly.psu.productId),
     (Category.chassis.key, assembly.chassis.productId)]
  let cooler := assembly.cooler.toList.map fun cooler => (Category.cooler.key, cooler.productId)
  let drives := assembly.storage.zipIdx.map fun (drive, before) =>
    (driveSlot before, drive.productId)
  .ofEntries (fixed ++ cooler ++ drives)

end ChosenBuild

namespace AutoBuild

/-- The slots that must be filled, in the order they are looked at. -/
def requiredSlots : List Category :=
  [.cpu, .motherboard, .ram, .gpu, .psu, .chassis]

/-- The first slot that must be filled and has no candidate. -/
def emptySlot? (pools : CandidatePools) : Option Category :=
  requiredSlots.find? fun category => pools.size category = 0

/-- The pools that a request is searched in. -/
def requestPools (workshop : Workshop) (settings : EngineSettings) (request : BuildRequest)
    (items : List CatalogItem) : CandidatePools :=
  (Catalog.pools workshop.lookup settings.beamWidth.toNat items).retainPlatform
    (.ofFilter request.platform)

/-- The best build in some pools, or why there is none. -/
def chooseFrom (pools : CandidatePools) (machine : Machine) (weights : Weights)
    (budget : Decimal) : Except BuildError ChosenBuild :=
  match emptySlot? pools with
  | some category => .error (.notPossible budget (.emptyPool category))
  | none =>
      match pools.search? machine weights budget fun _ => false with
      | none => .error (.internal "a price is too large")
      | some outcome =>
          match outcome.best with
          | some build => .ok build
          | none => .error (.notPossible budget
              (.allRejected outcome.combinations outcome.overBudget outcome.incompatible))

/-- The build that a request gets, or why it gets none. -/
def choose (workshop : Workshop) (settings : EngineSettings) (request : BuildRequest) :
    Except BuildError ChosenBuild :=
  if request.budget.toInt ≤ 0 then
    .error (.invalidRequest "budget"
      s!"must be greater than zero, got {request.budget.toInt}")
  else
    match workshop.catalog with
    | .error error => .error error
    | .ok items =>
        chooseFrom (requestPools workshop settings request items) workshop.machine
          (Weights.ofTags request.priorities) (Decimal.ofInt64 request.budget)

/-- The questions that are asked about a build: one each for processor,
    graphics card and memory. -/
def priceQueries (today : Date) (windowDays : UInt32) (build : ChosenBuild) :
    List PriceQuery :=
  let query (category : Category) (productId : Int64) : PriceQuery :=
    { category, productId, start := windowStart today windowDays, stop := today, bucket := .day }
  [query .cpu build.assembly.cpu.productId, query .gpu build.assembly.gpu.productId,
   query .ram build.assembly.ram.productId]

/-- The line that stands for missing price charts. -/
def pricesUnavailable : String := "Price history data is temporarily unavailable."

/-- The lines that explain a build, before those about its prices. -/
def reasons (budget : Decimal) (weights : Weights) (build : ChosenBuild) : List String :=
  [s!"Total price: {build.total.toText} (budget {budget.toText})",
   s!"Composite score: {Binary64.fixedText 4 build.score.toFloat}",
   s!"Required PSU wattage: {build.assembly.requiredWattage.toNat} W " ++
     s!"(selected PSU provides {build.assembly.psu.facts.wattage.toNat} W)",
   s!"Applied weights: {weights.toText}"]

/-- The line about a finding. -/
def remark (issue : Issue) : String :=
  let label := match issue.level with
    | .error => "Error"
    | .warning => "Advisory"
  s!"{label} [{issue.code.word}]: {issue.message}"

/-- The result for a build: its reasons, its charts, and the findings about
    its parts. -/
def finish (workshop : Workshop) (settings : EngineSettings) (request : BuildRequest)
    (build : ChosenBuild) : BuildResult :=
  let queries := priceQueries workshop.today settings.priceWindowDays build
  let charts := queries.map fun query => query.chart? workshop.prices
  let notice := if charts.all Option.isSome then [] else [pricesUnavailable]
  { selection := build.selection
    parts := build.parts
    total := build.total
    requiredPsuWattage := build.assembly.requiredWattage
    compositeScore := build.score
    rationale :=
      reasons (Decimal.ofInt64 request.budget) (Weights.ofTags request.priorities) build
        ++ notice
        ++ (build.selection.issues workshop.lookup).map remark
    priceCharts := charts.filterMap id }

/-- Answers a request.  A request that has been cancelled is not looked at. -/
def run (workshop : Workshop) (settings : EngineSettings) (request : BuildRequest)
    (cancelled : Bool) : Except BuildError BuildResult :=
  if cancelled then .error .cancelled
  else (choose workshop settings request).map (finish workshop settings request)

end AutoBuild

end PcAssembly
