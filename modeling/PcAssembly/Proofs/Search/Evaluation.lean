import PcAssembly.Proofs.Number.Nan
import PcAssembly.Proofs.Search.Combination
import PcAssembly.Search.Evaluation

/-! # What an evaluation says

    A combination is completed by the picks that follow from it, and its
    evaluation is decided by three things in this order: whether it can be
    completed, what it costs, and whether it fits together.  Each outcome is
    characterised once here; nothing else opens the evaluation. -/

namespace PcAssembly

namespace Assembly

/-- The build of a combination: its four candidates, the supply and the
    chassis that are picked for them, a cooler if there is any, and the first
    drives. -/
structure Completes (pools : CandidatePools) (combination : Combination)
    (assembly : Assembly) : Prop where
  combination : assembly.combination = combination
  psu : (Pick.psu? pools.psus assembly.requiredWattage).map Placed.candidate = some assembly.psu
  chassis : (Pick.chassis? pools.chassis assembly.gpu.facts).map Placed.candidate =
    some assembly.chassis
  cooler : assembly.cooler =
    (Pick.cooler? pools.coolers assembly.chassis.facts assembly.cpu.facts).map Placed.candidate
  storage : assembly.storage = pools.storage.take storagePicks

variable {pools : CandidatePools} {combination : Combination} {assembly : Assembly}

/-- A combination is completed by the picks that follow from it. -/
theorem complete?_eq_some_iff :
    complete? pools combination = some assembly ↔ assembly.Completes pools combination := by
  constructor
  · intro h
    obtain ⟨psu, hpsu, h⟩ := Option.bind_eq_some_iff.mp h
    obtain ⟨chassis, hchassis, h⟩ := Option.bind_eq_some_iff.mp h
    have hassembly := (Option.some.inj h).symm
    subst hassembly
    exact ⟨rfl, congrArg (Option.map Placed.candidate) hpsu,
      congrArg (Option.map Placed.candidate) hchassis, rfl, rfl⟩
  · rintro ⟨rfl, hpsu, hchassis, hcooler, hstorage⟩
    obtain ⟨psu, hpsu, hpsuEq⟩ := Option.map_eq_some_iff.mp hpsu
    obtain ⟨chassis, hchassis, hchassisEq⟩ := Option.map_eq_some_iff.mp hchassis
    refine Option.bind_eq_some_iff.mpr ⟨psu, hpsu, ?_⟩
    refine Option.bind_eq_some_iff.mpr ⟨chassis, hchassis, ?_⟩
    refine congrArg some ?_
    obtain ⟨combination, _, _, _, _⟩ := assembly
    refine Assembly.mk.injEq .. ▸ ⟨rfl, hpsuEq, hchassisEq, ?_, hstorage.symm⟩
    rw [hchassisEq]
    exact hcooler.symm

/-- Only an empty pool of supplies or chassis leaves a combination without a
    build. -/
theorem exists_completes (combination : Combination) (hpsus : pools.psus ≠ [])
    (hchassis : pools.chassis ≠ []) :
    ∃ assembly, Assembly.Completes pools combination assembly := by
  obtain ⟨psu, hpsu⟩ := Option.isSome_iff_exists.mp
    (Pick.psu?_isSome (Wattage.required combination.cpu.candidate.facts
      combination.gpu.candidate.facts) hpsus)
  obtain ⟨chassis, hchassis⟩ := Option.isSome_iff_exists.mp
    (Pick.chassis?_isSome combination.gpu.candidate.facts hchassis)
  exact ⟨_, complete?_eq_some_iff.mp
    (Option.bind_eq_some_iff.mpr ⟨psu, hpsu, Option.bind_eq_some_iff.mpr ⟨chassis, hchassis, rfl⟩⟩)⟩

namespace Completes

variable (h : assembly.Completes pools combination)

include h

/-- The supply of a build is in its pool. -/
theorem psu_mem : assembly.psu ∈ pools.psus := by
  obtain ⟨place, hplace, heq⟩ := Option.map_eq_some_iff.mp h.psu
  exact heq ▸ Placed.candidate_mem_of_mem_all (Pick.mem_of_psu? hplace)

/-- The case of a build is in its pool. -/
theorem chassis_mem : assembly.chassis ∈ pools.chassis := by
  obtain ⟨place, hplace, heq⟩ := Option.map_eq_some_iff.mp h.chassis
  exact heq ▸ Placed.candidate_mem_of_mem_all (Pick.mem_of_chassis? hplace)

/-- The cooler of a build is in its pool. -/
theorem cooler_mem {cooler : Candidate Cooler} (hcooler : assembly.cooler = some cooler) :
    cooler ∈ pools.coolers := by
  rw [h.cooler] at hcooler
  obtain ⟨place, hplace, heq⟩ := Option.map_eq_some_iff.mp hcooler
  exact heq ▸ Placed.candidate_mem_of_mem_all (Pick.mem_of_cooler? hplace)

/-- The drives of a build are in their pool. -/
theorem storage_mem {drive : Candidate Drive} (hdrive : drive ∈ assembly.storage) :
    drive ∈ pools.storage := by
  rw [h.storage] at hdrive
  exact List.mem_of_mem_take hdrive

end Completes

/-- Machines agree on the score of the drives. -/
theorem agreesWith_storageScore (machine other : Machine) (assembly : Assembly) :
    (assembly.storageScore machine).AgreesWith (assembly.storageScore other) :=
  machine.agreesWith_foldl_add other _ (.refl _)

/-- **Machines agree on the score of a build**, unless it is a NaN. -/
theorem agreesWith_score (machine other : Machine) (weights : Weights) (assembly : Assembly) :
    (assembly.score machine weights).AgreesWith (assembly.score other weights) := by
  have hweighted {x y : Double} (h : x.AgreesWith y) (weight : Weight) :
      (machine.mul x (.ofFloat weight.toFloat)).AgreesWith
        (other.mul y (.ofFloat weight.toFloat)) :=
    machine.agreesWith_mul other h (.refl _)
  have hpair := machine.agreesWith_add other (hweighted (.refl assembly.cpu.score) weights.cpu)
    (hweighted (.refl assembly.gpu.score) weights.gpu)
  have hsearched := machine.agreesWith_add other hpair
    (hweighted (.refl assembly.ram.score) weights.ram)
  have hdrives := hweighted (agreesWith_storageScore machine other assembly) weights.storage
  exact machine.agreesWith_add other hsearched hdrives

end Assembly

namespace Evaluation

variable {pools : CandidatePools} {machine : Machine} {weights : Weights} {budget : Decimal}
  {combination : Combination}

/-- The verdict on a build with this price. -/
def verdict (machine : Machine) (weights : Weights) (budget : Decimal) (assembly : Assembly)
    (total : Decimal) : Evaluation :=
  if budget.lt total then .overBudget
  else if assembly.resolved.isCompatible then
    .feasible { assembly, total, score := assembly.score machine weights }
  else .incompatible

/-- A build is feasible if it is within the budget and passes. -/
theorem verdict_eq_feasible_iff {assembly : Assembly} {total : Decimal} {build : ChosenBuild} :
    verdict machine weights budget assembly total = .feasible build ↔
      build = ⟨assembly, total, assembly.score machine weights⟩ ∧ budget.lt total = false ∧
        assembly.resolved.isCompatible = true := by
  rw [verdict]
  split
  · rename_i hover
    simp [hover]
  · split
    · rename_i hwithin hfits
      simp [hwithin, hfits, eq_comm]
    · rename_i hfits
      simp [hfits]

/-- A build above the budget is not checked. -/
theorem verdict_eq_overBudget_iff {assembly : Assembly} {total : Decimal} :
    verdict machine weights budget assembly total = .overBudget ↔ budget.lt total = true := by
  rw [verdict]
  split
  · rename_i hover
    simp [hover]
  · rename_i hwithin
    split <;> simp [hwithin]

/-- A build within the budget may fail the checks. -/
theorem verdict_eq_incompatible_iff {assembly : Assembly} {total : Decimal} :
    verdict machine weights budget assembly total = .incompatible ↔
      budget.lt total = false ∧ assembly.resolved.isCompatible = false := by
  rw [verdict]
  split
  · rename_i hover
    simp [hover]
  · rename_i hwithin
    split
    · rename_i hfits
      simp [hfits]
    · rename_i hfits
      simp [hwithin, hfits]

/-- No build is found aborted. -/
theorem verdict_ne_aborted {assembly : Assembly} {total : Decimal} :
    verdict machine weights budget assembly total ≠ .aborted := by
  rw [verdict]
  split
  · exact fun h => nomatch h
  · split <;> exact fun h => nomatch h

/-- Machines agree on a verdict, unless it comes with a NaN. -/
theorem verdict_eq_of_not_isNan {assembly : Assembly} {total : Decimal} (other : Machine)
    (h : ∀ build, verdict machine weights budget assembly total = .feasible build →
      build.score.isNan = false) :
    verdict other weights budget assembly total =
      verdict machine weights budget assembly total := by
  rw [verdict, verdict]
  by_cases hover : budget.lt total = true
  · rw [if_pos hover, if_pos hover]
  · rw [if_neg hover, if_neg hover]
    by_cases hfits : assembly.resolved.isCompatible = true
    · have hnumber : (assembly.score machine weights).isNan = false :=
        h _ (verdict_eq_feasible_iff.mpr ⟨rfl, eq_false_of_ne_true hover, hfits⟩)
      rw [if_pos hfits, if_pos hfits, (assembly.agreesWith_score machine other weights).eq hnumber]
    · rw [if_neg hfits, if_neg hfits]

/-- The evaluation of a combination that can be completed. -/
theorem of?_of_completes {assembly : Assembly} (h : assembly.Completes pools combination) :
    of? pools machine weights budget combination =
      assembly.total?.map (verdict machine weights budget assembly) := by
  have hcomplete := Assembly.complete?_eq_some_iff.mpr h
  rw [of?]
  split
  · rename_i hnone
    exact nomatch hnone.symm.trans hcomplete
  · rename_i other hsome
    have heq : other = assembly := Option.some.inj (hsome.symm.trans hcomplete)
    rw [heq]
    cases assembly.total? <;> rfl

/-- Without a supply or a chassis nothing fits together. -/
theorem of?_of_not_completes (h : ∀ assembly, ¬ Assembly.Completes pools combination assembly) :
    of? pools machine weights budget combination = some .incompatible := by
  rw [of?]
  split
  · rfl
  · rename_i assembly hsome
    exact absurd (Assembly.complete?_eq_some_iff.mp hsome) (h assembly)

/-- An outcome that is not incompatibility is the verdict on a build. -/
theorem of?_eq_some_iff {evaluation : Evaluation} (hne : evaluation ≠ .incompatible) :
    of? pools machine weights budget combination = some evaluation ↔
      ∃ assembly total, Assembly.Completes pools combination assembly ∧
        assembly.total? = some total ∧
          verdict machine weights budget assembly total = evaluation := by
  constructor
  · intro h
    -- a combination without a build is incompatible, which is excluded
    by_cases hex : ∃ assembly, Assembly.Completes pools combination assembly
    · obtain ⟨assembly, hcompletes⟩ := hex
      rw [of?_of_completes hcompletes] at h
      obtain ⟨total, htotal, hverdict⟩ := Option.map_eq_some_iff.mp h
      exact ⟨assembly, total, hcompletes, htotal, hverdict⟩
    · rw [of?_of_not_completes (not_exists.mp hex)] at h
      exact absurd (Option.some.inj h).symm hne
  · rintro ⟨assembly, total, hcompletes, htotal, hverdict⟩
    rw [of?_of_completes hcompletes, htotal]
    exact congrArg some hverdict

/-- The conditions under which a combination is feasible. -/
theorem of?_eq_feasible_iff {build : ChosenBuild} :
    of? pools machine weights budget combination = some (.feasible build) ↔
      build.assembly.Completes pools combination ∧ build.assembly.total? = some build.total ∧
        budget.lt build.total = false ∧ build.assembly.resolved.isCompatible = true ∧
        build.score = build.assembly.score machine weights := by
  have hne : Evaluation.feasible build ≠ .incompatible := fun h => nomatch h
  rw [of?_eq_some_iff hne]
  constructor
  · rintro ⟨assembly, total, hcompletes, htotal, hverdict⟩
    obtain ⟨rfl, hwithin, hfits⟩ := verdict_eq_feasible_iff.mp hverdict
    exact ⟨hcompletes, htotal, hwithin, hfits, rfl⟩
  · obtain ⟨assembly, total, score⟩ := build
    rintro ⟨hcompletes, htotal, hwithin, hfits, hscore⟩
    have hscore : score = assembly.score machine weights := hscore
    exact ⟨assembly, total, hcompletes, htotal,
      verdict_eq_feasible_iff.mpr ⟨by rw [hscore], hwithin, hfits⟩⟩

/-- A combination is feasible as one build only. -/
theorem feasible_unique {build other : ChosenBuild}
    (h : of? pools machine weights budget combination = some (.feasible build))
    (hother : of? pools machine weights budget combination = some (.feasible other)) :
    build = other :=
  Evaluation.feasible.inj (Option.some.inj (h.symm.trans hother))

/-- There is no outcome exactly when the price of the build overflows. -/
theorem of?_eq_none_iff :
    of? pools machine weights budget combination = none ↔
      ∃ assembly, Assembly.Completes pools combination assembly ∧ assembly.total? = none := by
  constructor
  · intro h
    by_cases hex : ∃ assembly, Assembly.Completes pools combination assembly
    · obtain ⟨assembly, hcompletes⟩ := hex
      rw [of?_of_completes hcompletes] at h
      exact ⟨assembly, hcompletes, Option.map_eq_none_iff.mp h⟩
    · rw [of?_of_not_completes (not_exists.mp hex)] at h
      exact nomatch h
  · rintro ⟨assembly, hcompletes, htotal⟩
    rw [of?_of_completes hcompletes, htotal]
    rfl

/-- **Machines agree on what a combination amounts to**, unless its score is a
    NaN. -/
theorem of?_eq_of_not_isNan (other : Machine)
    (h : ∀ build, of? pools machine weights budget combination = some (.feasible build) →
      build.score.isNan = false) :
    of? pools other weights budget combination = of? pools machine weights budget combination := by
  by_cases hex : ∃ assembly, Assembly.Completes pools combination assembly
  · obtain ⟨assembly, hcompletes⟩ := hex
    rw [of?_of_completes hcompletes] at h
    rw [of?_of_completes hcompletes, of?_of_completes hcompletes]
    refine Option.map_congr fun total htotal => ?_
    rw [htotal, Option.map_some] at h
    exact verdict_eq_of_not_isNan other fun build hbuild => h build (congrArg some hbuild)
  · rw [of?_of_not_completes (not_exists.mp hex), of?_of_not_completes (not_exists.mp hex)]

/-- An evaluation that takes place is not an aborted one. -/
theorem of?_ne_aborted : of? pools machine weights budget combination ≠ some .aborted := by
  intro h
  have hne : Evaluation.aborted ≠ .incompatible := fun h => nomatch h
  obtain ⟨assembly, total, _, _, hverdict⟩ := (of?_eq_some_iff hne).mp h
  exact verdict_ne_aborted hverdict

end Evaluation

end PcAssembly
