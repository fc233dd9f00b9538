import PcAssembly.Proofs.Build.Rationale
import PcAssembly.Proofs.Catalog.Provenance
import PcAssembly.Proofs.Compatibility
import PcAssembly.Proofs.Search.Budget

/-! # Results can be trusted

    The search looks at facts that candidates carry, a report looks them up
    again by id.  Both see the same build: every part of a chosen build stems
    from the catalog, so its id leads back to its facts.  What the search has
    checked therefore holds of the result: it passes validation, it is within
    the budget, its processor is of the platform that was asked for, and its
    rationale reports no error. -/

namespace PcAssembly

/-! ## Every part of a build stems from the catalog -/

/-- All parts of a build stem from the catalog, each by its own slot. -/
structure Assembly.StemsFrom (lookup : PartLookup) (items : List CatalogItem)
    (assembly : Assembly) : Prop where
  cpu : assembly.cpu.StemsFrom lookup items .cpu
  motherboard : assembly.motherboard.StemsFrom lookup items .motherboard
  ram : assembly.ram.StemsFrom lookup items .ram
  gpu : assembly.gpu.StemsFrom lookup items .gpu
  psu : assembly.psu.StemsFrom lookup items .psu
  chassis : assembly.chassis.StemsFrom lookup items .chassis
  cooler : ∀ cooler, assembly.cooler = some cooler → cooler.StemsFrom lookup items .cooler
  storage : ∀ drive ∈ assembly.storage, drive.StemsFrom lookup items .storage

namespace ChosenBuild

/-- The selection of a build leads back to the build: whoever looks its ids up
    sees the facts that the search has seen. -/
theorem ofSelection_eq_resolved {lookup : PartLookup} {items : List CatalogItem}
    {build : ChosenBuild} (h : build.assembly.StemsFrom lookup items) :
    ResolvedBuild.ofSelection lookup build.selection = build.assembly.resolved := by
  have hcooler : (build.assembly.cooler.map Candidate.componentId).bind
      (ResolvedBuild.facts? lookup .cooler) = build.assembly.cooler.map Candidate.facts := by
    cases hslot : build.assembly.cooler with
    | none => rfl
    | some cooler => exact (h.cooler cooler hslot).facts?
  have hstorage : (build.assembly.storage.map Candidate.componentId).filterMap
      (ResolvedBuild.facts? lookup .storage) = build.assembly.storage.map Candidate.facts := by
    rw [List.filterMap_map, ← List.filterMap_eq_map]
    exact List.filterMap_congr fun drive hdrive => (h.storage drive hdrive).facts?
  simp only [ResolvedBuild.ofSelection, selection, Assembly.resolved, Option.bind_some,
    h.cpu.facts?, h.motherboard.facts?, h.ram.facts?, h.gpu.facts?, h.psu.facts?,
    h.chassis.facts?, hcooler, hstorage]

end ChosenBuild

namespace AutoBuild

variable {workshop : Workshop} {settings : EngineSettings} {request : BuildRequest}

/-- The builds of a request's pools stem from the catalog. -/
theorem stemsFrom_of_completes {items : List CatalogItem} {combination : Combination}
    {assembly : Assembly}
    (hoffers : (requestPools workshop settings request items).Offers combination)
    (hcompletes : assembly.Completes (requestPools workshop settings request items) combination) :
    assembly.StemsFrom workshop.lookup items := by
  obtain ⟨rfl, -, -, -, -⟩ := id hcompletes
  constructor
  · exact Catalog.stemsFrom_of_mem_pool .cpu
      (CandidatePools.mem_cpus_retainPlatform.mp
        (Placed.candidate_mem_of_mem_all hoffers.cpu)).1
  · exact Catalog.stemsFrom_of_mem_pool .motherboard
      (Placed.candidate_mem_of_mem_all hoffers.motherboard)
  · exact Catalog.stemsFrom_of_mem_pool .ram
      (Placed.candidate_mem_of_mem_all hoffers.ram)
  · exact Catalog.stemsFrom_of_mem_pool .gpu
      (Placed.candidate_mem_of_mem_all hoffers.gpu)
  · exact Catalog.stemsFrom_of_mem_pool .psu hcompletes.psu_mem
  · exact Catalog.stemsFrom_of_mem_pool .chassis hcompletes.chassis_mem
  · intro cooler hcooler
    exact Catalog.stemsFrom_of_mem_pool .cooler (hcompletes.cooler_mem hcooler)
  · intro drive hdrive
    exact Catalog.stemsFrom_of_mem_pool .storage (hcompletes.storage_mem hdrive)

/-! ## What a successful run has gone through -/

theorem chooseFrom_eq_ok_iff {pools : CandidatePools} {machine : Machine} {weights : Weights}
    {budget : Decimal} {build : ChosenBuild} :
    chooseFrom pools machine weights budget = .ok build ↔
      emptySlot? pools = none ∧ ∃ outcome,
        pools.search? machine weights budget (fun _ => false) = some outcome ∧
        outcome.best = some build := by
  rw [chooseFrom]
  split
  · rename_i category hempty
    simp [hempty]
  · rename_i hempty
    split
    · rename_i hnone
      simp [hnone]
    · rename_i outcome hsome
      split
      · rename_i best hbest
        simp [hempty, hsome, hbest]
      · rename_i hbest
        simp [hsome, hbest]

theorem choose_eq_ok_iff {build : ChosenBuild} :
    choose workshop settings request = .ok build ↔
      0 < request.budget.toInt ∧ ∃ items, workshop.catalog = .ok items ∧
        chooseFrom (requestPools workshop settings request items)
          workshop.machine (Weights.ofTags request.priorities) (Decimal.ofInt64 request.budget) =
            .ok build := by
  rw [choose]
  split
  · rename_i hbudget
    simp [Int.not_lt.mpr hbudget]
  · rename_i hbudget
    split
    · rename_i fault hcatalog
      simp [hcatalog]
    · rename_i items hcatalog
      simp [hcatalog, Int.not_le.mp hbudget]

theorem run_eq_ok_iff {cancelled : Bool} {result : BuildResult} :
    run workshop settings request cancelled = .ok result ↔
      cancelled = false ∧ ∃ build, choose workshop settings request = .ok build ∧
        finish workshop settings request build = result := by
  rw [run]
  cases cancelled with
  | true => simp
  | false => cases choose workshop settings request <;> simp [Except.map]

/-- The result of a run is made of the optimum of the request's pools. -/
theorem exists_optimum_of_run {result : BuildResult}
    (h : run workshop settings request false = .ok result) :
    ∃ items combination build, workshop.catalog = .ok items ∧
      (requestPools workshop settings request items).IsOptimum
        workshop.machine (Weights.ofTags request.priorities) (Decimal.ofInt64 request.budget)
          combination build ∧
      finish workshop settings request build = result := by
  obtain ⟨-, build, hchoose, hfinish⟩ := run_eq_ok_iff.mp h
  obtain ⟨-, items, hcatalog, hchosen⟩ := choose_eq_ok_iff.mp hchoose
  obtain ⟨-, outcome, hsearch, hbest⟩ := chooseFrom_eq_ok_iff.mp hchosen
  obtain ⟨combination, hoptimum⟩ := (CandidatePools.best_eq_some_iff hsearch).mp hbest
  exact ⟨items, combination, build, hcatalog, hoptimum, hfinish⟩

/-! ## What holds of a result -/

/-- How the sockets start that a platform filter asks for. -/
theorem socketStart_ofFilter (filter : Option String) :
    (Platform.ofFilter filter).socketStart =
      if filter.any fun word => Text.lowered (Text.trimmed word) == "intel" then "LGA"
      else "AM" := by
  cases filter with
  | none => rfl
  | some word =>
      show (if Text.lowered (Text.trimmed word) == "intel" then Platform.intel
        else .amd).socketStart = _
      rw [Option.any_some]
      split <;> rfl

/-- **The selection of a result passes** the checks. -/
theorem isCompatible_of_run {result : BuildResult}
    (h : run workshop settings request false = .ok result) :
    (result.selection.report workshop.lookup).isCompatible = true := by
  obtain ⟨items, combination, build, -, hoptimum, rfl⟩ := exists_optimum_of_run h
  obtain ⟨hcompletes, -, -, hfits, -⟩ := Evaluation.of?_eq_feasible_iff.mp hoptimum.feasible
  -- validation sees what the search has seen
  have hresolved := ChosenBuild.ofSelection_eq_resolved
    (stemsFrom_of_completes (CandidatePools.offers_of_mem hoptimum.mem) hcompletes)
  rw [← hfits, ← hresolved]
  rfl

/-- **Results are sound.**  Whatever parts are known, whatever the catalog
    holds and however the price service behaves, the result of a run passes
    validation against the same parts and is within the budget.  Its processor
    is of the platform of the request, with its facts looked up by the id in
    the result; its board has the same socket, and its supply gives the
    wattage that the result states, which is what processor and graphics card
    ask for.  The rationale has no line about an error, and one with an advice
    exactly when validation gives an advice. -/
theorem run_sound {result : BuildResult} (h : run workshop settings request false = .ok result) :
    (result.selection.report workshop.lookup).isCompatible = true ∧
      result.total.le (.ofInt64 request.budget) = true ∧
      (∃ cpuId boardId gpuId psuId cpu board gpu psu,
        result.selection.cpu = some cpuId ∧
        workshop.lookup .cpu cpuId = some (.cpu cpu) ∧
        result.selection.motherboard = some boardId ∧
        workshop.lookup .motherboard boardId = some (.motherboard board) ∧
        result.selection.gpu = some gpuId ∧
        workshop.lookup .gpu gpuId = some (.gpu gpu) ∧
        result.selection.psu = some psuId ∧
        workshop.lookup .psu psuId = some (.psu psu) ∧
        (if request.platform.any fun word => Text.lowered (Text.trimmed word) == "intel"
          then "LGA" else "AM").toList <+: cpu.socket.toList ∧
        board.socket = cpu.socket ∧
        result.requiredPsuWattage = Wattage.required cpu gpu ∧
        result.requiredPsuWattage ≤ psu.wattage) ∧
      (∀ line ∈ result.rationale, ¬ "Error [".toList <+: line.toList) ∧
      ((∃ line ∈ result.rationale, "Advisory [".toList <+: line.toList) ↔
        ∃ issue ∈ (result.selection.report workshop.lookup).issues, issue.level = .warning) := by
  have hcompatible := isCompatible_of_run h
  obtain ⟨items, combination, build, -, hoptimum, rfl⟩ := exists_optimum_of_run h
  obtain ⟨hcompletes, -, hwithin, hfits, -⟩ := Evaluation.of?_eq_feasible_iff.mp hoptimum.feasible
  have hoffers := CandidatePools.offers_of_mem hoptimum.mem
  have hstems := stemsFrom_of_completes hoffers hcompletes
  have hplatform : (Platform.ofFilter request.platform).socketStart.toList <+:
      build.assembly.cpu.facts.socket.toList := by
    have hmem := Placed.candidate_mem_of_mem_all hoffers.cpu
    rw [← hcompletes.combination] at hmem
    exact (CandidatePools.mem_cpus_retainPlatform.mp hmem).2
  refine ⟨hcompatible, Decimal.le_iff.mpr (Decimal.lt_eq_false_iff.mp hwithin),
    ⟨_, _, _, _, _, _, _, _, rfl, hstems.cpu.lookup_eq, rfl, hstems.motherboard.lookup_eq,
      rfl, hstems.gpu.lookup_eq, rfl, hstems.psu.lookup_eq, ?_, ?_, rfl, ?_⟩, ?_,
    exists_remark_iff .warning⟩
  · rw [← socketStart_ofFilter]
    exact hplatform
  · exact ResolvedBuild.socket_eq_of_isCompatible hfits rfl rfl
  · exact ResolvedBuild.required_le_of_isCompatible hfits rfl rfl rfl
  · -- such a line would be about an error, and validation finds none
    intro line hline hhead
    obtain ⟨issue, hissue, hlevel⟩ := (exists_remark_iff .error).mp ⟨line, hline, hhead⟩
    exact ResolvedBuild.isCompatible_iff.mp hcompatible issue hissue hlevel

/-- The parts of a result cost no more than the budget, but for what rounding
    can hide. -/
theorem exactTotal_le_of_run {result : BuildResult}
    (h : run workshop settings request false = .ok result) :
    ∃ build : ChosenBuild, build.selection = result.selection ∧ build.parts = result.parts ∧
      build.total = result.total ∧
      build.assembly.exactTotal ≤ request.budget.toInt + build.assembly.magnitude / 10 ^ 27 := by
  obtain ⟨items, combination, build, -, hoptimum, rfl⟩ := exists_optimum_of_run h
  have hbound := Evaluation.exactTotal_le_of_feasible hoptimum.feasible
  rw [Decimal.value_ofInt64] at hbound
  exact ⟨build, rfl, rfl, rfl, hbound⟩

/-- A run whose result passes a test has a result. -/
theorem exists_result_of_any {cancelled : Bool} {test : BuildResult → Bool}
    (h : (run workshop settings request cancelled).toOption.any test = true) :
    ∃ result, run workshop settings request cancelled = .ok result ∧ test result = true := by
  cases hrun : run workshop settings request cancelled with
  | error error =>
      rw [hrun] at h
      exact nomatch h
  | ok result =>
      rw [hrun] at h
      exact ⟨result, rfl, h⟩

/-- A workshop with one part of each category, all with the same id.  The
    memory is faster than the board runs it. -/
def sampleWorkshop : Workshop where
  machine := .usual
  lookup category id :=
    if id = 1 then
      some <| match category with
        | .cpu => .cpu ⟨"AM5", 65, 600⟩
        | .motherboard => .motherboard ⟨"AM5", "DDR5", 5200, 2, 2, "ATX"⟩
        | .ram => .ram ⟨"DDR5", 6000, 100⟩
        | .gpu => .gpu ⟨300, 2, 200, 1500⟩
        | .psu => .psu ⟨750, "ATX"⟩
        | .chassis => .chassis ⟨340, 160, "ATX"⟩
        | .cooler => .cooler ⟨155, []⟩
        | .storage => .storage ⟨.nvme, 80⟩
    else none
  catalog := .ok <| Category.all.map fun category =>
    { productId := 7
      price := .ofInt64 100
      stock := 1
      componentTag := "\x7b\"type\": \"" ++ category.key ++ "\", \"id\": 1\x7d" }
  prices := .unavailable
  today := .first

/-- The parts of the sample make a build for eight hundred, and its rationale
    has an advice about the memory. -/
theorem run_sound_sample :
    ∃ result, run sampleWorkshop {} { budget := 800 } false = .ok result ∧
      (result.selection.report sampleWorkshop.lookup).isCompatible = true ∧
      result.total.le (.ofInt64 800) = true ∧
      ∃ line ∈ result.rationale, "Advisory [".toList <+: line.toList := by
  have hok : (run sampleWorkshop {} { budget := 800 } false).toOption.any (fun result =>
      (result.selection.report sampleWorkshop.lookup).issues.any fun issue =>
        issue.level == .warning) = true := by
    decide +kernel
  cases hrun : run sampleWorkshop {} { budget := 800 } false with
  | error fault =>
      rw [hrun] at hok
      exact nomatch hok
  | ok result =>
      rw [hrun] at hok
      obtain ⟨hcompatible, hwithin, -, -, hadvice⟩ := run_sound hrun
      obtain ⟨issue, hissue, hlevel⟩ := List.any_eq_true.mp hok
      exact ⟨result, rfl, hcompatible, hwithin, hadvice.mpr ⟨issue, hissue, beq_iff_eq.mp hlevel⟩⟩

end AutoBuild

end PcAssembly
