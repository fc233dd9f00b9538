import PcAssembly.Proofs.Search.LargerBudget
import PcAssembly.Proofs.Search.Withdrawal

/-! # What fewer candidates change

    What a combination amounts to depends on its four candidates and on the
    pools that are not searched.  Take other candidates away: the best build is
    as good as before, the others are no better, and a tie between them is
    decided as before.  So the search finds the same build as long as none of
    its four searched parts is taken away, and where there was no build there
    still is none. -/

namespace PcAssembly

/-! ## What the combinations amount to -/

namespace Assembly

/-- The parts with the four searched ones at other places. -/
def placedAt (combination : Combination) (assembly : Assembly) : Assembly :=
  { assembly with combination }

variable {combination : Combination} {assembly : Assembly}
  (h : combination.candidates = assembly.combination.candidates)

include h

/-- The searched parts stay the same wherever they are placed. -/
theorem searched_placedAt :
    (assembly.placedAt combination).cpu = assembly.cpu ∧
      (assembly.placedAt combination).motherboard = assembly.motherboard ∧
      (assembly.placedAt combination).gpu = assembly.gpu ∧
      (assembly.placedAt combination).ram = assembly.ram := by
  obtain ⟨hcpu, h⟩ := Prod.mk.inj h
  obtain ⟨hboard, h⟩ := Prod.mk.inj h
  obtain ⟨hgpu, hram⟩ := Prod.mk.inj h
  exact ⟨hcpu, hboard, hgpu, hram⟩

/-- So does the price. -/
theorem total?_placedAt : (assembly.placedAt combination).total? = assembly.total? := by
  obtain ⟨hcpu, hboard, hgpu, hram⟩ := searched_placedAt h
  rw [total?, total?, hcpu, hboard, hgpu, hram]
  rfl

/-- So does what is checked. -/
theorem resolved_placedAt : (assembly.placedAt combination).resolved = assembly.resolved := by
  obtain ⟨hcpu, hboard, hgpu, hram⟩ := searched_placedAt h
  rw [resolved, resolved, hcpu, hboard, hgpu, hram]
  rfl

/-- So does the score. -/
theorem score_placedAt (machine : Machine) (weights : Weights) :
    (assembly.placedAt combination).score machine weights = assembly.score machine weights := by
  obtain ⟨hcpu, -, hgpu, hram⟩ := searched_placedAt h
  rw [score, score, hcpu, hgpu, hram]
  rfl

end Assembly

/-- The build with its searched parts at other places. -/
def ChosenBuild.placedAt (combination : Combination) (build : ChosenBuild) : ChosenBuild :=
  { build with assembly := build.assembly.placedAt combination }

/-- The evaluation with the searched parts of the build at other places. -/
def Evaluation.placedAt (combination : Combination) : Evaluation → Evaluation
  | .feasible build => .feasible (build.placedAt combination)
  | .overBudget => .overBudget
  | .incompatible => .incompatible
  | .aborted => .aborted

/-- Two builds of the same candidates in every slot, with the same price,
    wattage and score.  Their candidates may stand at different places. -/
structure ChosenBuild.SameParts (x y : ChosenBuild) : Prop where
  cpu : x.assembly.cpu = y.assembly.cpu
  motherboard : x.assembly.motherboard = y.assembly.motherboard
  gpu : x.assembly.gpu = y.assembly.gpu
  ram : x.assembly.ram = y.assembly.ram
  psu : x.assembly.psu = y.assembly.psu
  chassis : x.assembly.chassis = y.assembly.chassis
  cooler : x.assembly.cooler = y.assembly.cooler
  storage : x.assembly.storage = y.assembly.storage
  total : x.total = y.total
  requiredWattage : x.assembly.requiredWattage = y.assembly.requiredWattage
  score : x.score = y.score

/-- A build that is placed elsewhere has the same parts. -/
theorem ChosenBuild.sameParts_placedAt {combination : Combination} {build : ChosenBuild}
    (h : combination.candidates = build.assembly.combination.candidates) :
    (build.placedAt combination).SameParts build := by
  obtain ⟨hcpu, hboard, hgpu, hram⟩ := Assembly.searched_placedAt h
  refine ⟨hcpu, hboard, hgpu, hram, rfl, rfl, rfl, rfl, rfl, ?_, rfl⟩
  show Wattage.required (build.assembly.placedAt combination).cpu.facts
    (build.assembly.placedAt combination).gpu.facts = _
  rw [hcpu, hgpu]
  rfl

namespace Evaluation

/-- A build that is placed elsewhere is judged the same. -/
theorem verdict_placedAt {combination : Combination} {assembly : Assembly}
    (h : combination.candidates = assembly.combination.candidates) (machine : Machine)
    (weights : Weights) (budget total : Decimal) :
    verdict machine weights budget (assembly.placedAt combination) total =
      (verdict machine weights budget assembly total).placedAt combination := by
  rw [verdict, verdict, Assembly.resolved_placedAt h, Assembly.score_placedAt h]
  split
  · rfl
  · split <;> rfl

end Evaluation

namespace CandidatePools

variable {pools : CandidatePools} {withdrawal : Withdrawal} {machine : Machine} {weights : Weights}
  {budget : Decimal} {c c' d d' : Combination}

/-- The picks follow from the four candidates, wherever these stand, and from
    pools of which nothing is taken away. -/
theorem complete?_withdraw (pools : CandidatePools) (withdrawal : Withdrawal)
    (h : d.candidates = c.candidates) :
    Assembly.complete? (pools.withdraw withdrawal) d =
      (Assembly.complete? pools c).map (Assembly.placedAt d) := by
  obtain ⟨hcpu, h⟩ := Prod.mk.inj h
  obtain ⟨-, h⟩ := Prod.mk.inj h
  obtain ⟨hgpu, -⟩ := Prod.mk.inj h
  rw [Assembly.complete?, Assembly.complete?, hcpu, hgpu]
  show Option.bind (Pick.psu? pools.psus _) _ = _
  cases Pick.psu? pools.psus (Wattage.required c.cpu.candidate.facts c.gpu.candidate.facts) with
  | none => rfl
  | some psu =>
      show Option.bind (Pick.chassis? pools.chassis _) _ = _
      cases Pick.chassis? pools.chassis c.gpu.candidate.facts <;> rfl

/-- **What a combination amounts to** depends on its candidates, wherever they
    stand, and not on the other candidates that are searched. -/
theorem of?_withdraw (pools : CandidatePools) (withdrawal : Withdrawal) (machine : Machine)
    (weights : Weights) (budget : Decimal) (h : d.candidates = c.candidates) :
    Evaluation.of? (pools.withdraw withdrawal) machine weights budget d =
      (Evaluation.of? pools machine weights budget c).map (Evaluation.placedAt d) := by
  have hsame := complete?_withdraw pools withdrawal h
  cases hcomplete : Assembly.complete? pools c with
  | none =>
      rw [hcomplete] at hsame
      rw [Evaluation.of?, Evaluation.of?, hcomplete, hsame]
      rfl
  | some assembly =>
      rw [hcomplete] at hsame
      have hcompletes := Assembly.complete?_eq_some_iff.mp hcomplete
      have hplaced : d.candidates = assembly.combination.candidates := by
        rw [h, hcompletes.combination]
      rw [Evaluation.of?_of_completes hcompletes,
        Evaluation.of?_of_completes (Assembly.complete?_eq_some_iff.mp hsame),
        Assembly.total?_placedAt hplaced, Option.map_map]
      congr 1
      funext total
      exact Evaluation.verdict_placedAt hplaced machine weights budget total

/-- What is feasible in fewer pools was feasible before, at its place there. -/
theorem of?_eq_feasible_iff_withdraw (h : d.candidates = c.candidates) {build : ChosenBuild} :
    Evaluation.of? (pools.withdraw withdrawal) machine weights budget d = some (.feasible build) ↔
      ∃ other, Evaluation.of? pools machine weights budget c = some (.feasible other) ∧
        build = other.placedAt d := by
  rw [of?_withdraw pools withdrawal machine weights budget h, Option.map_eq_some_iff]
  constructor
  · rintro ⟨evaluation, hevaluation, hplaced⟩
    cases evaluation with
    | feasible other => exact ⟨other, hevaluation, (Evaluation.feasible.inj hplaced).symm⟩
    | _ => exact nomatch hplaced
  · rintro ⟨other, hother, rfl⟩
    exact ⟨_, hother, rfl⟩

/-! ## The search among what remains -/

/-- The optimum stays the optimum if it is spared. -/
theorem IsOptimum.withdraw {build : ChosenBuild}
    (h : pools.IsOptimum machine weights budget c build) (hbecomes : Becomes pools withdrawal c d) :
    (pools.withdraw withdrawal).IsOptimum machine weights budget d (build.placedAt d) where
  mem := hbecomes.mem_withdraw
  feasible := (of?_eq_feasible_iff_withdraw hbecomes.candidates_eq).mpr ⟨build, h.feasible, rfl⟩
  best := by
    intro d' hd' rival' hrival' hne
    obtain ⟨c', hbecomes'⟩ := Becomes.exists_of_mem hd'
    obtain ⟨rival, hrival, rfl⟩ :=
      (of?_eq_feasible_iff_withdraw hbecomes'.candidates_eq).mp hrival'
    have hne' : c' ≠ c := by
      rintro rfl
      exact hne (hbecomes.unique hbecomes')
    rcases h.best c' hbecomes'.mem rival hrival hne' with hlt | ⟨hscore, hordinal⟩
    · exact Or.inl hlt
    · exact Or.inr ⟨hscore, (hbecomes.ordinal_lt_iff hbecomes').mpr hordinal⟩

/-- If no price overflows, none of those that remain does. -/
theorem exists_search?_withdraw (withdrawal : Withdrawal)
    (hpriced : ∀ combination ∈ pools.combinations, ∀ assembly,
      Assembly.Completes pools combination assembly → assembly.total? ≠ none) :
    ∃ outcome, (pools.withdraw withdrawal).search? machine weights budget (fun _ => false) =
      some outcome := by
  refine exists_search?_iff.mpr fun d hd assembly hcompletes htotal => ?_
  obtain ⟨c, hbecomes⟩ := Becomes.exists_of_mem hd
  have hnone : Evaluation.of? (pools.withdraw withdrawal) machine weights budget d = none :=
    Evaluation.of?_eq_none_iff.mpr ⟨assembly, hcompletes, htotal⟩
  rw [of?_withdraw pools withdrawal machine weights budget hbecomes.candidates_eq,
    Option.map_eq_none_iff, Evaluation.of?_eq_none_iff] at hnone
  obtain ⟨before, hbefore, hoverflow⟩ := hnone
  exact hpriced c hbecomes.mem before hbefore hoverflow

/-- **Irrelevant alternatives do not matter.**  Suppose no price overflows.
    Whatever candidates are taken away from the pools of processors, boards,
    graphics cards and memory: if there is no best build, there is none among
    what remains; and if there is one that is spared, the search among what
    remains finds the same parts, with the same price, wattage and score. -/
theorem search_of_withdraw (pools : CandidatePools) (machine : Machine) (weights : Weights)
    (budget : Decimal) (hpriced : ∀ combination ∈ pools.combinations, ∀ assembly,
      Assembly.Completes pools combination assembly → assembly.total? ≠ none) :
    ∃ outcome, pools.search? machine weights budget (fun _ => false) = some outcome ∧
      ∀ withdrawal : Withdrawal, ∃ remaining,
        (pools.withdraw withdrawal).search? machine weights budget (fun _ => false) =
          some remaining ∧
        (outcome.best = none → remaining.best = none) ∧
        ∀ build, outcome.best = some build →
          withdrawal.spares build.assembly.combination = true →
            ∃ same, remaining.best = some same ∧ same.SameParts build := by
  obtain ⟨outcome, hsearch⟩ := exists_search?_iff.mpr hpriced
  refine ⟨outcome, hsearch, fun withdrawal => ?_⟩
  obtain ⟨remaining, hremaining⟩ := exists_search?_withdraw withdrawal hpriced
  refine ⟨remaining, hremaining, ?_, ?_⟩
  · intro hnone
    refine (best_eq_none_iff hremaining).mpr fun d hd build hfeasible => ?_
    obtain ⟨c, hbecomes⟩ := Becomes.exists_of_mem hd
    obtain ⟨other, hother, -⟩ := (of?_eq_feasible_iff_withdraw hbecomes.candidates_eq).mp hfeasible
    exact (best_eq_none_iff hsearch).mp hnone c hbecomes.mem other hother
  · intro build hbest hspares
    obtain ⟨c, hoptimum⟩ := (best_eq_some_iff hsearch).mp hbest
    have hc : build.assembly.combination = c :=
      (Evaluation.of?_eq_feasible_iff.mp hoptimum.feasible).1.combination
    rw [hc] at hspares
    obtain ⟨d, hbecomes⟩ := Becomes.exists_of_spares hoptimum.mem hspares
    refine ⟨build.placedAt d,
      (best_eq_some_iff hremaining).mpr ⟨d, hoptimum.withdraw hbecomes⟩, ?_⟩
    refine ChosenBuild.sameParts_placedAt ?_
    rw [hc]
    exact hbecomes.candidates_eq

/-- Of the graphics cards the best build of the samples uses the second one, and
    of the memory kits the first; take all others away. -/
def sampleWithdrawal : Withdrawal where
  cpus _ := false
  motherboards _ := false
  gpus place := place != 1
  rams place := place != 0

/-- What was the third combination is then the only one, and it is the same
    build. -/
theorem search_of_withdraw_samples :
    (∀ combination ∈ samples.combinations, ∀ assembly,
      Assembly.Completes samples combination assembly → assembly.total? ≠ none) ∧
    ∃ outcome remaining build same,
      samples.search? .usual .base (.ofInt64 5000) (fun _ => false) = some outcome ∧
      (samples.withdraw sampleWithdrawal).search? .usual .base (.ofInt64 5000) (fun _ => false) =
        some remaining ∧
      outcome.best = some build ∧ build.ordinal = 2 ∧
      remaining.best = some same ∧ same.ordinal = 0 ∧ same.SameParts build := by
  have hends : (samples.search? .usual .base (.ofInt64 5000) fun _ => false).isSome = true := by
    decide +kernel
  have hpriced := exists_search?_iff.mp (Option.isSome_iff_exists.mp hends)
  obtain ⟨outcome, hsearch, hwithdraw⟩ :=
    search_of_withdraw samples .usual .base (.ofInt64 5000) hpriced
  obtain ⟨remaining, hremaining, -, hsame⟩ := hwithdraw sampleWithdrawal
  have hbest :
    ((samples.search? .usual .base (.ofInt64 5000) fun _ => false).bind SearchOutcome.best).map
      (fun build => (build.ordinal, sampleWithdrawal.spares build.assembly.combination)) =
        some (2, true) := by
    decide +kernel
  rw [hsearch, Option.map_eq_some_iff] at hbest
  obtain ⟨build, hbuild, hspared⟩ := hbest
  obtain ⟨hordinal, hspares⟩ := Prod.mk.inj hspared
  obtain ⟨same, hfound, hparts⟩ := hsame build hbuild hspares
  have hfirst : ((samples.withdraw sampleWithdrawal).search? .usual .base (.ofInt64 5000)
      fun _ => false).bind (fun outcome => outcome.best.map ChosenBuild.ordinal) = some 0 := by
    decide +kernel
  rw [hremaining, Option.bind_some, hfound] at hfirst
  exact ⟨hpriced, outcome, remaining, build, same, hsearch, hremaining, hbuild, hordinal, hfound,
    Option.some.inj hfirst, hparts⟩

end CandidatePools

end PcAssembly
