import PcAssembly.Compatibility
import PcAssembly.Decimal.Sum
import PcAssembly.Search.Combination
import PcAssembly.Weights

/-! # What a combination amounts to

    Once supply, chassis, cooler and drives have been added, a combination is
    a whole build with a price.  It is over the budget, or incompatible, or
    feasible with a composite score; the budget is looked at first.  A price
    that no amount can hold is neither: it is an overflow. -/

namespace PcAssembly

/-- How many drives go into every build. -/
def storagePicks : Nat := 2

/-- A combination with everything that is added to it. -/
structure Assembly where
  combination : Combination
  psu : Candidate Psu
  chassis : Candidate Chassis
  cooler : Option (Candidate Cooler)
  storage : List (Candidate Drive)

/-- A feasible build. -/
structure ChosenBuild where
  assembly : Assembly
  total : Decimal
  score : Double

/-- What has become of a combination. -/
inductive Evaluation where
  | feasible (build : ChosenBuild)
  | overBudget
  | incompatible
  /-- The search was called off before this combination. -/
  | aborted

namespace Assembly

/-- The processor of the build. -/
def cpu (assembly : Assembly) : Candidate Cpu := assembly.combination.cpu.candidate

/-- The board of the build. -/
def motherboard (assembly : Assembly) : Candidate Motherboard :=
  assembly.combination.motherboard.candidate

/-- The graphics card of the build. -/
def gpu (assembly : Assembly) : Candidate Gpu := assembly.combination.gpu.candidate

/-- The memory of the build. -/
def ram (assembly : Assembly) : Candidate RamKit := assembly.combination.ram.candidate

/-- The wattage that the build asks for. -/
def requiredWattage (assembly : Assembly) : UInt32 :=
  Wattage.required assembly.cpu.facts assembly.gpu.facts

/-- The combination with the parts that follow from it; none without a supply
    or a chassis to choose from. -/
def complete? (pools : CandidatePools) (combination : Combination) : Option Assembly := do
  let cpu := combination.cpu.candidate.facts
  let gpu := combination.gpu.candidate.facts
  let psu ← Pick.psu? pools.psus (Wattage.required cpu gpu)
  let chassis ← Pick.chassis? pools.chassis gpu
  return {
    combination
    psu := psu.candidate
    chassis := chassis.candidate
    cooler := (Pick.cooler? pools.coolers chassis.candidate.facts cpu).map Placed.candidate
    storage := pools.storage.take storagePicks }

/-- The price of the build: the four searched parts one after the other, then
    supply and chassis together, the cooler, and the drives together. -/
def total? (assembly : Assembly) : Option Decimal := do
  let searched ← assembly.cpu.price.add? assembly.motherboard.price
  let searched ← searched.add? assembly.gpu.price
  let searched ← searched.add? assembly.ram.price
  let housed ← searched.add? (← assembly.psu.price.add? assembly.chassis.price)
  let cooled ← housed.add? ((assembly.cooler.map Candidate.price).getD .zero)
  cooled.add? (← Decimal.sum? (assembly.storage.map Candidate.price))

/-- The fact sheets of the build. -/
def resolved (assembly : Assembly) : ResolvedBuild where
  cpu := some assembly.cpu.facts
  motherboard := some assembly.motherboard.facts
  ram := some assembly.ram.facts
  gpu := some assembly.gpu.facts
  psu := some assembly.psu.facts
  chassis := some assembly.chassis.facts
  cooler := assembly.cooler.map Candidate.facts
  storage := assembly.storage.map Candidate.facts

/-- The scores of the drives together, added to negative zero, which changes
    no score it is added to. -/
def storageScore (machine : Machine) (assembly : Assembly) : Double :=
  (assembly.storage.map Candidate.score).foldl machine.add (.ofFloat (-0.0))

/-- The composite score: the weighted scores of processor, graphics card,
    memory and drives, added up from the left. -/
def score (machine : Machine) (weights : Weights) (assembly : Assembly) : Double :=
  let weighted (score : Double) (weight : Weight) := machine.mul score (.ofFloat weight.toFloat)
  let sum := weighted assembly.cpu.score weights.cpu
  let sum := machine.add sum (weighted assembly.gpu.score weights.gpu)
  let sum := machine.add sum (weighted assembly.ram.score weights.ram)
  machine.add sum (weighted (assembly.storageScore machine) weights.storage)

end Assembly

namespace Evaluation

/-- What a combination amounts to under a budget; none if its price
    overflows. -/
def of? (pools : CandidatePools) (machine : Machine) (weights : Weights) (budget : Decimal)
    (combination : Combination) : Option Evaluation :=
  match Assembly.complete? pools combination with
  | none => some .incompatible
  | some assembly =>
      match assembly.total? with
      | none => none
      | some total =>
          some <|
            if budget.lt total then .overBudget
            else if assembly.resolved.isCompatible then
              .feasible { assembly, total, score := assembly.score machine weights }
            else .incompatible

end Evaluation

end PcAssembly
