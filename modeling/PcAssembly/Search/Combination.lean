import PcAssembly.Search.Pick

/-! # The combinations that are searched

    A combination is a processor, a board with the same socket, a graphics
    card and a memory kit.  They are listed pool by pool in this order, and a
    combination's ordinal is its position in the list. -/

namespace PcAssembly

/-- Four candidates that are tried together. -/
structure Combination where
  ordinal : Nat
  cpu : Placed Cpu
  motherboard : Placed Motherboard
  gpu : Placed Gpu
  ram : Placed RamKit

namespace CandidatePools

/-- The pairs of a processor and a board with its socket. -/
def socketPairs (pools : CandidatePools) : List (Placed Cpu × Placed Motherboard) :=
  (Placed.all pools.cpus).flatMap fun cpu =>
    ((Placed.all pools.motherboards).filter fun board =>
      board.candidate.facts.socket == cpu.candidate.facts.socket).map fun board => (cpu, board)

/-- All combinations, in order. -/
def combinations (pools : CandidatePools) : List Combination :=
  let quadruples := pools.socketPairs.flatMap fun (cpu, board) =>
    (Placed.all pools.gpus).flatMap fun gpu =>
      (Placed.all pools.rams).map fun ram => (cpu, board, gpu, ram)
  quadruples.zipIdx.map fun ((cpu, motherboard, gpu, ram), ordinal) =>
    { ordinal, cpu, motherboard, gpu, ram }

end CandidatePools

end PcAssembly
