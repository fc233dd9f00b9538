import PcAssembly.Part.Basic

/-! # Sizing the power supply

    A build draws what its processor and graphics card draw, and fifty watts
    for everything else.  The supply must give half as much again, rounded up
    to a whole watt; the requirement is capped at the largest wattage there
    is. -/

namespace PcAssembly.Wattage

/-- The draw of board, drives and fans. -/
def baseline : Nat := 50

/-- The largest wattage. -/
def cap : Nat := UInt32.size - 1

/-- Half as much again as the summed draw, rounded up, at most `cap`. -/
def requiredFor (cpuWatts gpuWatts : UInt32) : UInt32 :=
  UInt32.ofNat (min cap ((3 * (cpuWatts.toNat + gpuWatts.toNat + baseline) + 1) / 2))

/-- The wattage that a processor and a graphics card ask for. -/
def required (cpu : Cpu) (gpu : Gpu) : UInt32 :=
  requiredFor cpu.tdpWatts gpu.tdpWatts

theorem toNat_requiredFor (cpuWatts gpuWatts : UInt32) :
    (requiredFor cpuWatts gpuWatts).toNat =
      min cap ((3 * (cpuWatts.toNat + gpuWatts.toNat + baseline) + 1) / 2) := by
  unfold requiredFor
  rw [UInt32.toNat_ofNat_of_lt']
  simp only [cap, UInt32.size]
  omega

end PcAssembly.Wattage
