import PcAssembly.Catalog.Candidate
import PcAssembly.Wattage

/-! # Choosing supply, chassis and cooler

    Three slots are not searched: once processor and graphics card are known,
    the supply, the chassis and the cooler follow.  Each choice prefers a
    part that fits, and takes one that does not fit only if none does. -/

namespace PcAssembly

/-- A candidate and its position in its pool. -/
structure Placed (α : Type) where
  index : Nat
  candidate : Candidate α

namespace Placed

/-- The candidates of a pool with their positions. -/
def all {α : Type} (pool : List (Candidate α)) : List (Placed α) :=
  pool.zipIdx.map fun entry => ⟨entry.2, entry.1⟩

/-- The first of the candidates that no other one is strictly before. -/
def first? {α : Type} (before : Candidate α → Candidate α → Bool)
    (places : List (Placed α)) : Option (Placed α) :=
  places.foldl (fun best place =>
    match best with
    | none => some place
    | some best => if before place.candidate best.candidate then some place else some best)
    none

end Placed

namespace Pick

/-- How far two wattages are apart. -/
def distance (x y : UInt32) : Nat :=
  (x.toNat - y.toNat) + (y.toNat - x.toNat)

/-- The cheapest supply that gives what is required, or else the one closest
    to it; of equals, the first. -/
def psu? (psus : List (Candidate Psu)) (required : UInt32) : Option (Placed Psu) :=
  let places := Placed.all psus
  let adequate := places.filter fun place => required ≤ place.candidate.facts.wattage
  Placed.first? (fun x y => x.price.lt y.price) adequate <|>
    Placed.first?
      (fun x y => distance x.facts.wattage required < distance y.facts.wattage required) places

/-- The first chassis that the graphics card fits into, or else the first. -/
def chassis? (pool : List (Candidate Chassis)) (gpu : Gpu) : Option (Placed Chassis) :=
  let places := Placed.all pool
  places.find? (fun place => gpu.lengthMm ≤ place.candidate.facts.gpuMaxLengthMm) <|>
    places.head?

/-- The cooler fits into the chassis and onto the processor. -/
def coolerFits (chassis : Chassis) (cpu : Cpu) (cooler : Cooler) : Bool :=
  cooler.heightMm ≤ chassis.coolerMaxHeightMm && cooler.supports cpu.socket

/-- The first cooler that fits, or else the first. -/
def cooler? (pool : List (Candidate Cooler)) (chassis : Chassis) (cpu : Cpu) :
    Option (Placed Cooler) :=
  let places := Placed.all pool
  places.find? (fun place => coolerFits chassis cpu place.candidate.facts) <|> places.head?

end Pick

end PcAssembly
