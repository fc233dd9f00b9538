import PcAssembly.Category

/-! # What is known about a part

    Every category has its own fact sheet.  Only processors, memory kits,
    graphics cards and drives carry a performance rating; the other parts are
    all rated one, so that among them the price alone decides. -/

namespace PcAssembly

/-- A processor. -/
structure Cpu where
  socket : String
  tdpWatts : UInt32
  perfScore : Float
  deriving Inhabited

/-- A main board. -/
structure Motherboard where
  socket : String
  ramType : String
  ramMaxFreq : UInt32
  m2Slots : UInt32
  pcieSlots : UInt32
  formFactor : String
  deriving Inhabited

/-- A memory kit. -/
structure RamKit where
  ramType : String
  freqMhz : UInt32
  perfScore : Float
  deriving Inhabited

/-- A graphics card. -/
structure Gpu where
  lengthMm : UInt32
  slots : UInt32
  tdpWatts : UInt32
  perfScore : Float
  deriving Inhabited

/-- A power supply. -/
structure Psu where
  wattage : UInt32
  formFactor : String
  deriving Inhabited

/-- The case that holds all parts. -/
structure Chassis where
  gpuMaxLengthMm : UInt32
  coolerMaxHeightMm : UInt32
  psuFormFactor : String
  deriving Inhabited

/-- A processor cooler.  Without a socket in its list it fits every socket. -/
structure Cooler where
  heightMm : UInt32
  supportedSockets : List String
  deriving Inhabited

/-- How a drive is connected. -/
inductive DriveKind where
  | nvme
  | sata
  | other
  deriving DecidableEq, Repr, Inhabited

/-- A drive. -/
structure Drive where
  kind : DriveKind
  perfScore : Float
  deriving Inhabited

/-- The cooler can be mounted on this socket. -/
def Cooler.supports (cooler : Cooler) (socket : String) : Bool :=
  cooler.supportedSockets.isEmpty || cooler.supportedSockets.contains socket

/-- The fact sheet of a category. -/
abbrev Category.Facts : Category → Type
  | .cpu => Cpu
  | .motherboard => Motherboard
  | .ram => RamKit
  | .gpu => Gpu
  | .psu => Psu
  | .chassis => Chassis
  | .cooler => Cooler
  | .storage => Drive

/-- A part of any category. -/
inductive Part where
  | cpu (facts : Cpu)
  | motherboard (facts : Motherboard)
  | ram (facts : RamKit)
  | gpu (facts : Gpu)
  | psu (facts : Psu)
  | chassis (facts : Chassis)
  | cooler (facts : Cooler)
  | storage (facts : Drive)
  deriving Inhabited

namespace Part

/-- The slot the part goes into. -/
def category : Part → Category
  | .cpu _ => .cpu
  | .motherboard _ => .motherboard
  | .ram _ => .ram
  | .gpu _ => .gpu
  | .psu _ => .psu
  | .chassis _ => .chassis
  | .cooler _ => .cooler
  | .storage _ => .storage

/-- The rating a part is ranked by. -/
def perfScore : Part → Float
  | .cpu facts => facts.perfScore
  | .ram facts => facts.perfScore
  | .gpu facts => facts.perfScore
  | .storage facts => facts.perfScore
  | .motherboard _ | .psu _ | .chassis _ | .cooler _ => 1.0

/-- The fact sheet, if the part is of the given category. -/
def facts? : (category : Category) → Part → Option category.Facts
  | .cpu, .cpu facts => some facts
  | .motherboard, .motherboard facts => some facts
  | .ram, .ram facts => some facts
  | .gpu, .gpu facts => some facts
  | .psu, .psu facts => some facts
  | .chassis, .chassis facts => some facts
  | .cooler, .cooler facts => some facts
  | .storage, .storage facts => some facts
  | _, _ => none

theorem facts?_isSome_iff (category : Category) (part : Part) :
    (part.facts? category).isSome ↔ part.category = category := by
  cases category <;> cases part <;> simp [facts?, Part.category]

end Part

end PcAssembly
