import PcAssembly.Part.Store
import PcAssembly.Selection
import PcAssembly.Wattage

/-! # Which parts fit together

    Ten rules are laid over a build, each on its own, so a build can break
    several at once.  A rule looks at a few slots and is silent while one of
    them is unfilled, which is why a build that is still being put together
    can be checked as well.  One rule only advises; breaking any other makes
    the build incompatible. -/

namespace PcAssembly

/-- How serious a finding is. -/
inductive IssueLevel where
  | error
  | warning
  deriving DecidableEq, Repr

/-- What a finding is about. -/
inductive IssueCode where
  | cpuSocketMismatch
  | ramTypeMismatch
  | ramFreqTooHigh
  | gpuTooLong
  | coolerTooTall
  | psuTooWeak
  | psuFormfactorMismatch
  | m2SlotsExceeded
  | pcieSlotsExceeded
  deriving DecidableEq, Repr

namespace IssueLevel

/-- The word for a level. -/
def word : IssueLevel → String
  | .error => "error"
  | .warning => "warning"

/-- The level with exactly this word. -/
def ofWord? (word : String) : Option IssueLevel :=
  [error, warning].find? fun level => level.word == word

end IssueLevel

namespace IssueCode

/-- All codes. -/
def all : List IssueCode :=
  [.cpuSocketMismatch, .ramTypeMismatch, .ramFreqTooHigh, .gpuTooLong, .coolerTooTall,
   .psuTooWeak, .psuFormfactorMismatch, .m2SlotsExceeded, .pcieSlotsExceeded]

/-- The word for a code. -/
def word : IssueCode → String
  | .cpuSocketMismatch => "CPU_SOCKET_MISMATCH"
  | .ramTypeMismatch => "RAM_TYPE_MISMATCH"
  | .ramFreqTooHigh => "RAM_FREQ_TOO_HIGH"
  | .gpuTooLong => "GPU_TOO_LONG"
  | .coolerTooTall => "COOLER_TOO_TALL"
  | .psuTooWeak => "PSU_TOO_WEAK"
  | .psuFormfactorMismatch => "PSU_FORMFACTOR_MISMATCH"
  | .m2SlotsExceeded => "M2_SLOTS_EXCEEDED"
  | .pcieSlotsExceeded => "PCIE_SLOTS_EXCEEDED"

/-- The code with exactly this word. -/
def ofWord? (word : String) : Option IssueCode :=
  all.find? fun code => code.word == word

end IssueCode

/-- A finding about a build. -/
structure Issue where
  level : IssueLevel
  code : IssueCode
  message : String
  deriving DecidableEq, Repr

/-- The fact sheets of the filled slots of a build. -/
structure ResolvedBuild where
  cpu : Option Cpu := none
  motherboard : Option Motherboard := none
  ram : Option RamKit := none
  gpu : Option Gpu := none
  psu : Option Psu := none
  chassis : Option Chassis := none
  cooler : Option Cooler := none
  storage : List Drive := []

namespace ResolvedBuild

/-- The fact sheet of a chosen part.  A slot whose id is unknown, or known as
    a part of another category, counts as unfilled. -/
def facts? (lookup : PartLookup) (category : Category) (id : Int64) : Option category.Facts :=
  (lookup category id).bind (Part.facts? category)

/-- The build that a selection describes. -/
def ofSelection (lookup : PartLookup) (selection : Selection) : ResolvedBuild where
  cpu := selection.cpu.bind (facts? lookup .cpu)
  motherboard := selection.motherboard.bind (facts? lookup .motherboard)
  ram := selection.ram.bind (facts? lookup .ram)
  gpu := selection.gpu.bind (facts? lookup .gpu)
  psu := selection.psu.bind (facts? lookup .psu)
  chassis := selection.chassis.bind (facts? lookup .chassis)
  cooler := selection.cooler.bind (facts? lookup .cooler)
  storage := selection.storage.filterMap (facts? lookup .storage)

end ResolvedBuild

/-- A rule of compatibility.  It says what is wrong with a build, if it is
    broken. -/
structure Rule where
  level : IssueLevel
  code : IssueCode
  complaint? : ResolvedBuild → Option String

namespace Rule

/-- A complaint that is made under a condition. -/
def complain (broken : Bool) (message : String) : Option String :=
  if broken then some message else none

/-- The processor goes into the socket of the board. -/
def boardSocket : Rule where
  level := .error
  code := .cpuSocketMismatch
  complaint? build := do
    let cpu ← build.cpu
    let board ← build.motherboard
    complain (cpu.socket != board.socket)
      s!"CPU socket {cpu.socket} does not match motherboard socket {board.socket}"

/-- The board takes the type of the memory. -/
def ramType : Rule where
  level := .error
  code := .ramTypeMismatch
  complaint? build := do
    let ram ← build.ram
    let board ← build.motherboard
    complain (ram.ramType != board.ramType)
      s!"RAM type {ram.ramType} is not supported by the motherboard ({board.ramType})"

/-- The board runs the memory at its full frequency. -/
def ramFrequency : Rule where
  level := .warning
  code := .ramFreqTooHigh
  complaint? build := do
    let ram ← build.ram
    let board ← build.motherboard
    complain (board.ramMaxFreq < ram.freqMhz)
      (s!"RAM runs at {ram.freqMhz.toNat} MHz but the motherboard supports up to " ++
        s!"{board.ramMaxFreq.toNat} MHz; it will be downclocked")

/-- The graphics card fits into the chassis. -/
def gpuLength : Rule where
  level := .error
  code := .gpuTooLong
  complaint? build := do
    let gpu ← build.gpu
    let chassis ← build.chassis
    complain (chassis.gpuMaxLengthMm < gpu.lengthMm)
      (s!"GPU is {gpu.lengthMm.toNat} mm long but the case fits at most " ++
        s!"{chassis.gpuMaxLengthMm.toNat} mm")

/-- The cooler fits into the chassis. -/
def coolerHeight : Rule where
  level := .error
  code := .coolerTooTall
  complaint? build := do
    let cooler ← build.cooler
    let chassis ← build.chassis
    complain (chassis.coolerMaxHeightMm < cooler.heightMm)
      (s!"Cooler is {cooler.heightMm.toNat} mm tall but the case fits at most " ++
        s!"{chassis.coolerMaxHeightMm.toNat} mm")

/-- The cooler can be mounted on the socket of the processor. -/
def coolerSocket : Rule where
  level := .error
  code := .cpuSocketMismatch
  complaint? build := do
    let cooler ← build.cooler
    let cpu ← build.cpu
    let sockets := ", ".intercalate cooler.supportedSockets
    complain (!cooler.supports cpu.socket)
      s!"Cooler supports {sockets} but the CPU uses socket {cpu.socket}"

/-- The power supply gives what the build needs. -/
def psuWattage : Rule where
  level := .error
  code := .psuTooWeak
  complaint? build := do
    let psu ← build.psu
    let cpu ← build.cpu
    let gpu ← build.gpu
    let required := Wattage.required cpu gpu
    complain (psu.wattage < required)
      (s!"PSU provides {psu.wattage.toNat} W but the build needs at least " ++
        s!"{required.toNat} W")

/-- The power supply has the form that the chassis takes. -/
def psuForm : Rule where
  level := .error
  code := .psuFormfactorMismatch
  complaint? build := do
    let psu ← build.psu
    let chassis ← build.chassis
    complain (psu.formFactor != chassis.psuFormFactor)
      s!"PSU form factor {psu.formFactor} does not fit the case ({chassis.psuFormFactor})"

/-- The board has an M.2 slot for every NVMe drive. -/
def m2Slots : Rule where
  level := .error
  code := .m2SlotsExceeded
  complaint? build := do
    let board ← build.motherboard
    let drives := build.storage.countP fun drive => drive.kind == .nvme
    complain (board.m2Slots.toNat < drives)
      (s!"{drives} NVMe drives selected but the motherboard has " ++
        s!"{board.m2Slots.toNat} M.2 slots")

/-- The board has enough expansion slots for the graphics card. -/
def pcieSlots : Rule where
  level := .error
  code := .pcieSlotsExceeded
  complaint? build := do
    let gpu ← build.gpu
    let board ← build.motherboard
    complain (board.pcieSlots < gpu.slots)
      (s!"GPU occupies {gpu.slots.toNat} slots but the motherboard has " ++
        s!"{board.pcieSlots.toNat} PCIe slots")

/-- All rules, in the order of the findings. -/
def all : List Rule :=
  [boardSocket, ramType, ramFrequency, gpuLength, coolerHeight, coolerSocket, psuWattage,
   psuForm, m2Slots, pcieSlots]

/-- The finding of one rule about a build. -/
def issue? (rule : Rule) (build : ResolvedBuild) : Option Issue :=
  (rule.complaint? build).map fun message => ⟨rule.level, rule.code, message⟩

end Rule

/-- The finding makes a build incompatible. -/
def Issue.isError (issue : Issue) : Bool :=
  issue.level == .error

/-- All findings about a build, in the order of the rules. -/
def ResolvedBuild.issues (build : ResolvedBuild) : List Issue :=
  Rule.all.filterMap fun rule => rule.issue? build

/-- The build breaks no rule but those that advise. -/
def ResolvedBuild.isCompatible (build : ResolvedBuild) : Bool :=
  !build.issues.any Issue.isError

/-- The findings about a selection and what follows from them. -/
structure Report where
  isCompatible : Bool
  issues : List Issue
  deriving DecidableEq, Repr

/-- The report on a list of findings. -/
def Report.ofIssues (issues : List Issue) : Report where
  isCompatible := !issues.any Issue.isError
  issues := issues

/-- All findings about a selection. -/
def Selection.issues (lookup : PartLookup) (selection : Selection) : List Issue :=
  (ResolvedBuild.ofSelection lookup selection).issues

/-- The report on a selection. -/
def Selection.report (lookup : PartLookup) (selection : Selection) : Report :=
  .ofIssues (selection.issues lookup)

end PcAssembly
