import PcAssembly.Proofs.Compatibility
import PcAssembly.Proofs.Search.Optimum
import PcAssembly.Proofs.Search.Pick

/-! # Builds that a search can miss

    An assignment chooses a candidate for every slot, each on its own.  A search
    goes through all choices of processor, board, graphics card and memory, but
    takes only one supply, one chassis and one cooler with each of them: the
    cheapest supply that is strong enough, the first chassis that houses the
    graphics card, and the first cooler that fits.  Whether the supply has the
    form that the chassis takes, or what these three cost together, does not
    matter for the choice.  So where one assignment only is compatible and
    within the budget, a search finds it exactly when its supply, chassis and
    cooler are these, and finds nothing otherwise. -/

namespace PcAssembly

/-- A candidate for every slot. -/
structure Assignment where
  cpu : Candidate Cpu
  motherboard : Candidate Motherboard
  ram : Candidate RamKit
  gpu : Candidate Gpu
  psu : Candidate Psu
  chassis : Candidate Chassis
  cooler : Option (Candidate Cooler)
  storage : List (Candidate Drive)

namespace Assignment

/-- The price of the parts, added up as the price of a build is. -/
def total? (assignment : Assignment) : Option Decimal := do
  let searched ← assignment.cpu.price.add? assignment.motherboard.price
  let searched ← searched.add? assignment.gpu.price
  let searched ← searched.add? assignment.ram.price
  let housed ← searched.add? (← assignment.psu.price.add? assignment.chassis.price)
  let cooled ← housed.add? ((assignment.cooler.map Candidate.price).getD .zero)
  cooled.add? (← Decimal.sum? (assignment.storage.map Candidate.price))

/-- The fact sheets of the parts. -/
def resolved (assignment : Assignment) : ResolvedBuild where
  cpu := some assignment.cpu.facts
  motherboard := some assignment.motherboard.facts
  ram := some assignment.ram.facts
  gpu := some assignment.gpu.facts
  psu := some assignment.psu.facts
  chassis := some assignment.chassis.facts
  cooler := assignment.cooler.map Candidate.facts
  storage := assignment.storage.map Candidate.facts

/-- The candidates are from these pools: a cooler if there is any, and the
    first two drives. -/
structure IsFrom (pools : CandidatePools) (assignment : Assignment) : Prop where
  cpu : assignment.cpu ∈ pools.cpus
  motherboard : assignment.motherboard ∈ pools.motherboards
  ram : assignment.ram ∈ pools.rams
  gpu : assignment.gpu ∈ pools.gpus
  psu : assignment.psu ∈ pools.psus
  chassis : assignment.chassis ∈ pools.chassis
  cooler : pools.coolers = [] ∧ assignment.cooler = none ∨
    ∃ cooler ∈ pools.coolers, assignment.cooler = some cooler
  storage : assignment.storage = pools.storage.take 2

/-- The candidates are from these pools, cost no more than the budget, and
    break no rule but those that advise. -/
structure IsSolution (pools : CandidatePools) (budget : Decimal) (assignment : Assignment) :
    Prop where
  isFrom : assignment.IsFrom pools
  within : ∃ total, assignment.total? = some total ∧ total.le budget = true
  compatible : ∀ issue ∈ assignment.resolved.issues, issue.level ≠ .error

/-- Supply, chassis and cooler are what would be picked: the first of the
    cheapest supplies that are strong enough, the first chassis that houses the
    graphics card, and the first cooler that fits into it and onto the
    processor. -/
structure IsPicked (pools : CandidatePools) (assignment : Assignment) : Prop where
  psu : (pools.psus.filter fun psu =>
      Wattage.required assignment.cpu.facts assignment.gpu.facts ≤ psu.facts.wattage).argmin
    (fun psu => psu.price.value) = some assignment.psu
  chassis : (pools.chassis.find? fun chassis =>
    assignment.gpu.facts.lengthMm ≤ chassis.facts.gpuMaxLengthMm) = some assignment.chassis
  cooler : (pools.coolers.find? fun cooler =>
    cooler.facts.heightMm ≤ assignment.chassis.facts.coolerMaxHeightMm &&
      cooler.facts.supports assignment.cpu.facts.socket) = assignment.cooler

variable {pools : CandidatePools} {budget : Decimal} {assignment : Assignment}

theorem IsSolution.isCompatible (h : assignment.IsSolution pools budget) :
    assignment.resolved.isCompatible = true :=
  ResolvedBuild.isCompatible_iff.mpr h.compatible

end Assignment

namespace Assembly

/-- The candidates of a build, wherever they stand in their pools. -/
def assignment (assembly : Assembly) : Assignment where
  cpu := assembly.cpu
  motherboard := assembly.motherboard
  ram := assembly.ram
  gpu := assembly.gpu
  psu := assembly.psu
  chassis := assembly.chassis
  cooler := assembly.cooler
  storage := assembly.storage

/-- Price and fact sheets of a build are those of its candidates. -/
theorem total?_assignment (assembly : Assembly) :
    assembly.assignment.total? = assembly.total? := rfl

theorem resolved_assignment (assembly : Assembly) :
    assembly.assignment.resolved = assembly.resolved := rfl

variable {pools : CandidatePools} {machine : Machine} {weights : Weights} {budget : Decimal}
  {combination : Combination} {assembly : Assembly}

/-- The candidates of a build that is completed are from the pools. -/
theorem Completes.isFrom (hoffers : pools.Offers combination)
    (h : assembly.Completes pools combination) : assembly.assignment.IsFrom pools := by
  obtain ⟨rfl, -, -, -, -⟩ := id h
  refine ⟨Placed.candidate_mem_of_mem_all hoffers.cpu,
    Placed.candidate_mem_of_mem_all hoffers.motherboard,
    Placed.candidate_mem_of_mem_all hoffers.ram, Placed.candidate_mem_of_mem_all hoffers.gpu,
    h.psu_mem, h.chassis_mem, ?_, h.storage⟩
  cases hcooler : assembly.cooler with
  | some cooler => exact Or.inr ⟨cooler, h.cooler_mem hcooler, hcooler⟩
  | none =>
      refine Or.inl ⟨?_, hcooler⟩
      by_contra hcoolers
      have hsome := congrArg Option.isSome h.cooler
      rw [hcooler, Option.isSome_map, Pick.cooler?_isSome _ _ hcoolers] at hsome
      exact nomatch hsome

/-- A feasible build is a solution. -/
theorem isSolution_of_feasible {build : ChosenBuild} (hmem : combination ∈ pools.combinations)
    (h : Evaluation.of? pools machine weights budget combination = some (.feasible build)) :
    build.assembly.assignment.IsSolution pools budget := by
  obtain ⟨hcompletes, htotal, hwithin, hfits, -⟩ := Evaluation.of?_eq_feasible_iff.mp h
  refine ⟨hcompletes.isFrom (CandidatePools.offers_of_mem hmem), ⟨build.total, ?_, ?_⟩, ?_⟩
  · exact (total?_assignment build.assembly).trans htotal
  · exact Decimal.le_iff.mpr (Decimal.lt_eq_false_iff.mp hwithin)
  · rw [resolved_assignment]
    exact ResolvedBuild.isCompatible_iff.mp hfits

/-- **A solution is completed to exactly when its supply, chassis and cooler are
    picked**: it shows itself that some supply is strong enough, some chassis
    houses the graphics card and some cooler fits, so nothing falls back. -/
theorem completes_iff_isPicked (h : assembly.assignment.IsSolution pools budget) :
    assembly.Completes pools assembly.combination ↔ assembly.assignment.IsPicked pools := by
  have hfits := h.isCompatible
  have hpsu := Pick.map_psu?_eq ⟨_, h.isFrom.psu,
    ResolvedBuild.required_le_of_isCompatible hfits rfl rfl rfl⟩
  have hchassis := Pick.map_chassis?_eq ⟨_, h.isFrom.chassis,
    ResolvedBuild.gpuLength_le_of_isCompatible hfits rfl rfl⟩
  have hcooler : (Pick.cooler? pools.coolers assembly.chassis.facts assembly.cpu.facts).map
      Placed.candidate = pools.coolers.find? fun cooler =>
        Pick.coolerFits assembly.chassis.facts assembly.cpu.facts cooler.facts := by
    rcases h.isFrom.cooler with ⟨hnone, -⟩ | ⟨cooler, hmem, hsome⟩
    · rw [hnone]
      rfl
    · have hresolved : assembly.assignment.resolved.cooler = some cooler.facts :=
        congrArg (Option.map Candidate.facts) hsome
      have hheight := ResolvedBuild.coolerHeight_le_of_isCompatible hfits hresolved rfl
      have hsocket := ResolvedBuild.supports_of_isCompatible hfits hresolved rfl
      exact Pick.map_cooler?_eq ⟨cooler, hmem,
        Bool.and_eq_true_iff.mpr ⟨decide_eq_true hheight, hsocket⟩⟩
  constructor
  · intro hcompletes
    exact ⟨hpsu.symm.trans hcompletes.psu, hchassis.symm.trans hcompletes.chassis,
      hcooler.symm.trans hcompletes.cooler.symm⟩
  · intro hpicked
    exact ⟨rfl, hpsu.trans hpicked.psu, hchassis.trans hpicked.chassis,
      (hcooler.trans hpicked.cooler).symm, h.isFrom.storage⟩

end Assembly

namespace Assignment

variable {pools : CandidatePools} {machine : Machine} {weights : Weights} {budget : Decimal}
  {assignment : Assignment}

/-- The processor, the board, the graphics card and the memory of a solution
    are combined. -/
theorem IsSolution.exists_assembly (h : assignment.IsSolution pools budget) :
    ∃ assembly : Assembly, assembly.combination ∈ pools.combinations ∧
      assembly.assignment = assignment := by
  have hsocket := ResolvedBuild.socket_eq_of_isCompatible h.isCompatible rfl rfl
  obtain ⟨⟨hcpu, hboard, hram, hgpu, -, -, -, -⟩, -, -⟩ := h
  obtain ⟨_, _, _, _, psu, chassis, cooler, storage⟩ := assignment
  obtain ⟨cpu, hcpu', rfl⟩ := Placed.exists_of_candidate_mem hcpu
  obtain ⟨board, hboard', rfl⟩ := Placed.exists_of_candidate_mem hboard
  obtain ⟨gpu, hgpu', rfl⟩ := Placed.exists_of_candidate_mem hgpu
  obtain ⟨ram, hram', rfl⟩ := Placed.exists_of_candidate_mem hram
  have hoffers : pools.Offers ⟨0, cpu, board, gpu, ram⟩ := ⟨hcpu', hboard', hgpu', hram', hsocket⟩
  obtain ⟨ordinal, hmem⟩ := CandidatePools.exists_ordinal_of_offers hoffers
  exact ⟨⟨⟨ordinal, cpu, board, gpu, ram⟩, psu, chassis, cooler, storage⟩, hmem, rfl⟩

/-- A solution whose supply, chassis and cooler are picked is feasible. -/
theorem IsSolution.exists_feasible (h : assignment.IsSolution pools budget)
    (hpicked : assignment.IsPicked pools) (machine : Machine) (weights : Weights) :
    ∃ combination ∈ pools.combinations, ∃ build,
      Evaluation.of? pools machine weights budget combination = some (.feasible build) := by
  obtain ⟨assembly, hmem, rfl⟩ := h.exists_assembly
  obtain ⟨total, htotal, hwithin⟩ := h.within
  have hcompletes := (Assembly.completes_iff_isPicked h).mpr hpicked
  refine ⟨assembly.combination, hmem, ⟨assembly, total, assembly.score machine weights⟩,
    Evaluation.of?_eq_feasible_iff.mpr ⟨hcompletes, htotal, ?_, h.isCompatible, rfl⟩⟩
  exact Decimal.lt_eq_false_iff.mpr (Decimal.le_iff.mp hwithin)

end Assignment

namespace CandidatePools

/-- **Where there is one solution only, a search finds it exactly when its
    supply, chassis and cooler are picked**, if no price overflows; otherwise
    the search finds nothing. -/
theorem search_finds_solution (pools : CandidatePools) (machine : Machine) (weights : Weights)
    (budget : Decimal) (solution : Assignment)
    (hpriced : ∀ combination ∈ pools.combinations, ∀ assembly,
      Assembly.Completes pools combination assembly → assembly.total? ≠ none)
    (hsolution : solution.IsSolution pools budget)
    (hunique : ∀ other : Assignment, other.IsSolution pools budget → other = solution) :
    ∃ outcome, pools.search? machine weights budget (fun _ => false) = some outcome ∧
      (∀ build, outcome.best = some build → build.assembly.assignment = solution) ∧
      (outcome.best = none ↔ ¬ solution.IsPicked pools) := by
  have hends : ∃ outcome, pools.search? machine weights budget (fun _ => false) = some outcome :=
    exists_search?_iff.mpr hpriced
  obtain ⟨outcome, hsearch⟩ := hends
  have hfound : ∀ build, outcome.best = some build →
      build.assembly.assignment = solution ∧ solution.IsPicked pools := by
    intro build hbest
    obtain ⟨combination, hoptimum⟩ := (best_eq_some_iff hsearch).mp hbest
    have hsame := hunique _ (Assembly.isSolution_of_feasible hoptimum.mem hoptimum.feasible)
    have hcompletes := (Evaluation.of?_eq_feasible_iff.mp hoptimum.feasible).1
    refine ⟨hsame, ?_⟩
    rw [← hsame, ← Assembly.completes_iff_isPicked (hsame ▸ hsolution), hcompletes.combination]
    exact hcompletes
  refine ⟨outcome, hsearch, fun build hbest => (hfound build hbest).1, ?_⟩
  constructor
  · intro hnone hpicked
    obtain ⟨combination, hmem, build, hfeasible⟩ :=
      hsolution.exists_feasible hpicked machine weights
    exact (best_eq_none_iff hsearch).mp hnone combination hmem build hfeasible
  · intro hmissed
    cases hbest : outcome.best with
    | none => rfl
    | some build => exact absurd (hfound build hbest).2 hmissed

/-- The dearer of two supplies. -/
def dearerSupply : Candidate Psu := .sample 40 (.ofInt64 90) ⟨750, "ATX"⟩ 1

/-- The cheaper of two supplies. -/
def cheaperSupply (facts : Psu) : Candidate Psu := .sample 41 (.ofInt64 60) facts 1

/-- Pools that leave a choice between two supplies only. -/
def twoSupplies (cheaper : Psu) : CandidatePools where
  cpus := [.sample 1 (.ofInt64 300) ⟨"AM5", 65, 600⟩ 2]
  motherboards := [.sample 10 (.ofInt64 150) ⟨"AM5", "DDR5", 6000, 2, 2, "ATX"⟩ 1]
  rams := [.sample 20 (.ofInt64 100) ⟨"DDR5", 5600, 100⟩ 1]
  gpus := [.sample 30 (.ofInt64 500) ⟨300, 2, 200, 1500⟩ 3]
  psus := [cheaperSupply cheaper, dearerSupply]
  chassis := [.sample 50 (.ofInt64 80) ⟨340, 160, "ATX"⟩ 1]

/-- The assignments that these pools leave. -/
def suppliedBy (psu : Candidate Psu) : Assignment where
  cpu := .sample 1 (.ofInt64 300) ⟨"AM5", 65, 600⟩ 2
  motherboard := .sample 10 (.ofInt64 150) ⟨"AM5", "DDR5", 6000, 2, 2, "ATX"⟩ 1
  ram := .sample 20 (.ofInt64 100) ⟨"DDR5", 5600, 100⟩ 1
  gpu := .sample 30 (.ofInt64 500) ⟨300, 2, 200, 1500⟩ 3
  psu := psu
  chassis := .sample 50 (.ofInt64 80) ⟨340, 160, "ATX"⟩ 1
  cooler := none
  storage := []

theorem eq_suppliedBy_of_isFrom {cheaper : Psu} {assignment : Assignment}
    (h : assignment.IsFrom (twoSupplies cheaper)) :
    assignment = suppliedBy (cheaperSupply cheaper) ∨ assignment = suppliedBy dearerSupply := by
  obtain ⟨cpu, board, ram, gpu, psu, chassis, cooler, storage⟩ := assignment
  obtain ⟨hcpu, hboard, hram, hgpu, hpsu, hchassis, hcooler, hstorage⟩ := h
  obtain rfl : cpu = _ := List.mem_singleton.mp hcpu
  obtain rfl : board = _ := List.mem_singleton.mp hboard
  obtain rfl : ram = _ := List.mem_singleton.mp hram
  obtain rfl : gpu = _ := List.mem_singleton.mp hgpu
  obtain rfl : chassis = _ := List.mem_singleton.mp hchassis
  obtain rfl : storage = [] := hstorage
  obtain rfl : cooler = none := by
    rcases hcooler with ⟨-, hnone⟩ | ⟨_, hmem, -⟩
    · exact hnone
    · exact nomatch hmem
  rcases List.mem_pair.mp hpsu with hpsu | hpsu
  · exact Or.inl (congrArg suppliedBy hpsu)
  · exact Or.inr (congrArg suppliedBy hpsu)

/-- The dearer supply completes a build that fits together and costs 1220. -/
theorem isSolution_dearerSupply (cheaper : Psu) :
    (suppliedBy dearerSupply).IsSolution (twoSupplies cheaper) (.ofInt64 1500) := by
  have hfrom : (suppliedBy dearerSupply).IsFrom (twoSupplies cheaper) :=
    ⟨List.mem_singleton_self _, List.mem_singleton_self _, List.mem_singleton_self _,
      List.mem_singleton_self _, List.mem_pair.mpr (Or.inr rfl), List.mem_singleton_self _,
      Or.inl ⟨rfl, rfl⟩, rfl⟩
  have htotal : (suppliedBy dearerSupply).total? = some (.ofInt64 1220) := by decide +kernel
  have hfits : (suppliedBy dearerSupply).resolved.isCompatible = true := by decide +kernel
  exact ⟨hfrom, ⟨_, htotal, by decide +kernel⟩, ResolvedBuild.isCompatible_iff.mp hfits⟩

/-- If the cheaper supply does not fit, there is no other solution. -/
theorem eq_dearerSupply_of_isSolution {cheaper : Psu} {budget : Decimal} {assignment : Assignment}
    (hbroken : (suppliedBy (cheaperSupply cheaper)).resolved.isCompatible = false)
    (h : assignment.IsSolution (twoSupplies cheaper) budget) :
    assignment = suppliedBy dearerSupply := by
  rcases eq_suppliedBy_of_isFrom h.isFrom with rfl | hdearer
  · exact nomatch hbroken.symm.trans h.isCompatible
  · exact hdearer

/-- A cheaper supply that is too weak is passed over. -/
theorem search_finds_solution_weak :
    (∀ combination ∈ (twoSupplies ⟨400, "ATX"⟩).combinations, ∀ assembly,
      Assembly.Completes (twoSupplies ⟨400, "ATX"⟩) combination assembly →
        assembly.total? ≠ none) ∧
    (suppliedBy dearerSupply).IsSolution (twoSupplies ⟨400, "ATX"⟩) (.ofInt64 1500) ∧
    (∀ other : Assignment, other.IsSolution (twoSupplies ⟨400, "ATX"⟩) (.ofInt64 1500) →
      other = suppliedBy dearerSupply) ∧
    ∃ outcome build,
      (twoSupplies ⟨400, "ATX"⟩).search? .usual .base (.ofInt64 1500) (fun _ => false) =
        some outcome ∧
      outcome.best = some build ∧ build.assembly.assignment = suppliedBy dearerSupply := by
  have hends : ((twoSupplies ⟨400, "ATX"⟩).search? .usual .base (.ofInt64 1500)
      fun _ => false).isSome = true := by
    decide +kernel
  have hpriced := exists_search?_iff.mp (Option.isSome_iff_exists.mp hends)
  have hunique : ∀ other : Assignment,
      other.IsSolution (twoSupplies ⟨400, "ATX"⟩) (.ofInt64 1500) →
        other = suppliedBy dearerSupply :=
    fun other => eq_dearerSupply_of_isSolution (by decide +kernel)
  have hpicked : (suppliedBy dearerSupply).IsPicked (twoSupplies ⟨400, "ATX"⟩) :=
    ⟨List.argmin_singleton, rfl, rfl⟩
  have hsolution := isSolution_dearerSupply ⟨400, "ATX"⟩
  obtain ⟨outcome, hsearch, hbest, hnone⟩ := search_finds_solution _ .usual .base (.ofInt64 1500) _
    hpriced hsolution hunique
  obtain ⟨build, hbuild⟩ := Option.ne_none_iff_exists'.mp fun h => hnone.mp h hpicked
  exact ⟨hpriced, hsolution, hunique, outcome, build, hsearch, hbuild, hbest build hbuild⟩

/-- A cheaper supply that is strong enough is picked although it does not go
    into the chassis, and the one solution is missed. -/
theorem search_misses_solution :
    (suppliedBy dearerSupply).IsSolution (twoSupplies ⟨750, "SFX"⟩) (.ofInt64 1500) ∧
    (∀ other : Assignment, other.IsSolution (twoSupplies ⟨750, "SFX"⟩) (.ofInt64 1500) →
      other = suppliedBy dearerSupply) ∧
    ∃ outcome, (twoSupplies ⟨750, "SFX"⟩).search? .usual .base (.ofInt64 1500) (fun _ => false) =
        some outcome ∧
      outcome.best = none := by
  have hsearch : ((twoSupplies ⟨750, "SFX"⟩).search? .usual .base (.ofInt64 1500)
      fun _ => false).any (fun outcome => outcome.best.isNone) = true := by
    decide +kernel
  obtain ⟨outcome, hsome, hbest⟩ := (Option.any_eq_true _ _).mp hsearch
  exact ⟨isSolution_dearerSupply _, fun other => eq_dearerSupply_of_isSolution (by decide +kernel),
    outcome, hsome, Option.isNone_iff_eq_none.mp hbest⟩

end CandidatePools

end PcAssembly
