import PcAssembly.Catalog.Item
import PcAssembly.Number.Double
import PcAssembly.Part.Store
import PcAssembly.Platform
import PcAssembly.Tag

/-! # Candidates for the slots of a build

    A catalog item whose tag leads to a known part of its category is a
    candidate for that slot.  Its score is what it performs per unit of
    price.  Every pool holds the candidates of one category, best score
    first; equal scores keep the order of the catalog, and only the best few
    are kept.  Everything else in a catalog is passed over and counted. -/

namespace PcAssembly

/-- A catalog item together with what is known about the part it sells. -/
structure Candidate (α : Type) where
  item : CatalogItem
  componentId : Int64
  facts : α
  score : Double

namespace Candidate

/-- The product of a candidate. -/
def productId {α : Type} (candidate : Candidate α) : Int64 := candidate.item.productId

/-- The price of a candidate. -/
def price {α : Type} (candidate : Candidate α) : Decimal := candidate.item.price

/-- The candidate for a slot, if its part is of that category. -/
def narrow? (category : Category) (candidate : Candidate Part) :
    Option (Candidate category.Facts) :=
  (candidate.facts.facts? category).map fun facts => { candidate with facts }

/-- Performance per unit of price; a price below one counts as one. -/
def scorePerPrice (perfScore : Float) (price : Decimal) : Double :=
  .ofFloat (perfScore / Binary64.larger price.toFloat 1)

/-- The first candidate stands no later than the second in a pool: its score is
    not below in the total order of doubles. -/
def ranksBefore {α : Type} (x y : Candidate α) : Bool :=
  y.score.orderKey ≤ x.score.orderKey

/-- The best candidates, best first; the sort is stable. -/
def ranked {α : Type} (beamWidth : Nat) (candidates : List (Candidate α)) :
    List (Candidate α) :=
  (candidates.mergeSort ranksBefore).take beamWidth

end Candidate

/-- What becomes of a catalog item. -/
inductive Resolution where
  /-- Its tag is no tag. -/
  | malformed
  /-- Its tag leads to no part of the category it names. -/
  | unresolved
  | found (candidate : Candidate Part)

namespace Resolution

/-- Follows the tag of an item. -/
def ofItem (lookup : PartLookup) (item : CatalogItem) : Resolution :=
  match ComponentTag.ofText? item.componentTag with
  | none => .malformed
  | some tag =>
      match lookup tag.category tag.componentId with
      | none => .unresolved
      | some part =>
          if part.category = tag.category then
            .found {
              item
              componentId := tag.componentId
              facts := part
              score := Candidate.scorePerPrice part.perfScore item.price }
          else .unresolved

/-- The candidate that an item has become. -/
def candidate? : Resolution → Option (Candidate Part)
  | .found candidate => some candidate
  | _ => none

/-- The item has no tag. -/
def isMalformed : Resolution → Bool
  | .malformed => true
  | _ => false

/-- The item has a tag that leads nowhere. -/
def isUnresolved : Resolution → Bool
  | .unresolved => true
  | _ => false

end Resolution

/-- The candidates of every category. -/
structure CandidatePools where
  cpus : List (Candidate Cpu) := []
  motherboards : List (Candidate Motherboard) := []
  rams : List (Candidate RamKit) := []
  gpus : List (Candidate Gpu) := []
  psus : List (Candidate Psu) := []
  chassis : List (Candidate Chassis) := []
  coolers : List (Candidate Cooler) := []
  storage : List (Candidate Drive) := []

namespace CandidatePools

/-- The pool of a category. -/
def pool (pools : CandidatePools) : (category : Category) → List (Candidate category.Facts)
  | .cpu => pools.cpus
  | .motherboard => pools.motherboards
  | .ram => pools.rams
  | .gpu => pools.gpus
  | .psu => pools.psus
  | .chassis => pools.chassis
  | .cooler => pools.coolers
  | .storage => pools.storage

/-- The pools in which every category has the list it is given. -/
def ofPools (pool : (category : Category) → List (Candidate category.Facts)) :
    CandidatePools where
  cpus := pool .cpu
  motherboards := pool .motherboard
  rams := pool .ram
  gpus := pool .gpu
  psus := pool .psu
  chassis := pool .chassis
  coolers := pool .cooler
  storage := pool .storage

/-- How many candidates a category has. -/
def size (pools : CandidatePools) (category : Category) : Nat :=
  (pools.pool category).length

/-- The pools without the processors of other platforms. -/
def retainPlatform (pools : CandidatePools) (platform : Platform) : CandidatePools :=
  { pools with
    cpus := pools.cpus.filter fun cpu => platform.matchesSocket cpu.facts.socket }

theorem pool_ofPools (pool : (category : Category) → List (Candidate category.Facts))
    (category : Category) : (ofPools pool).pool category = pool category := by
  cases category <;> rfl

end CandidatePools

/-- How the items of a catalog were sorted out. -/
structure ExtractionStats where
  total : Nat
  malformed : Nat
  unresolved : Nat
  kept : Nat
  deriving DecidableEq, Repr

/-- The number of candidates per pool if nothing else is asked for. -/
def defaultBeamWidth : UInt64 := 8

namespace Catalog

/-- The candidates in a catalog, in its order. -/
def candidates (lookup : PartLookup) (items : List CatalogItem) : List (Candidate Part) :=
  items.filterMap fun item => (Resolution.ofItem lookup item).candidate?

/-- The candidate pools of a catalog; a pool keeps one candidate at least. -/
def pools (lookup : PartLookup) (beamWidth : Nat) (items : List CatalogItem) :
    CandidatePools :=
  let found := candidates lookup items
  .ofPools fun category =>
    Candidate.ranked (max 1 beamWidth) (found.filterMap (Candidate.narrow? category))

/-- How many items of a catalog there are of each kind. -/
def stats (lookup : PartLookup) (items : List CatalogItem) : ExtractionStats :=
  let resolutions := items.map (Resolution.ofItem lookup)
  { total := items.length
    malformed := resolutions.countP Resolution.isMalformed
    unresolved := resolutions.countP Resolution.isUnresolved
    kept := resolutions.countP fun resolution => resolution.candidate?.isSome }

end Catalog

end PcAssembly
