import PcAssembly.Proofs.Search.Assignment

/-! # Parts that do not fit are never returned

    A pick falls back to a part that does not fit if none does.  The three picks
    and the rules of compatibility are written down apart from each other; here
    they are compared.  A pick that falls back breaks a rule, so the combination
    is over the budget or incompatible; and in a feasible build every pick is
    what its preference asks for. -/

namespace PcAssembly

namespace Placed

variable {α : Type} {pool : List (Candidate α)} {fits : Candidate α → Prop} {place : Placed α}

/-- The place is the first one of the pool with a candidate that fits. -/
structure IsFirst (pool : List (Candidate α)) (fits : Candidate α → Prop) (place : Placed α) :
    Prop where
  here : pool[place.index]? = some place.candidate
  before : ∀ index < place.index, ∀ candidate, pool[index]? = some candidate → ¬ fits candidate
  fits : fits place.candidate

theorem getElem_all (index : Nat) (hplaces : index < (all pool).length)
    (hpool : index < pool.length) : (all pool)[index] = ⟨index, pool[index]⟩ := by
  simp [all]

variable {test : Candidate α → Bool}

theorem isFirst_of_find? (htest : ∀ candidate, test candidate = true ↔ fits candidate)
    (h : (all pool).find? (fun place => test place.candidate) = some place) :
    IsFirst pool fits place := by
  obtain ⟨hfits, index, hindex, hplace, hbefore⟩ := List.find?_eq_some_iff_getElem.mp h
  have hpool : index < pool.length := by
    simpa [all] using hindex
  have hat : place.index = index := by
    rw [← hplace, getElem_all _ _ hpool]
  refine ⟨mem_all.mp (List.mem_of_find?_eq_some h), ?_, (htest _).mp hfits⟩
  intro earlier hearlier candidate hcandidate hfit
  obtain ⟨hlength, hget⟩ := List.getElem?_eq_some_iff.mp hcandidate
  have hunfit := hbefore earlier (hat ▸ hearlier)
  rw [getElem_all _ _ hlength, hget, (htest candidate).mpr hfit] at hunfit
  cases hunfit

/-- A choice that prefers what fits and takes the first part otherwise has not
    fallen back if what it took fits. -/
theorem isFirst_of_find?_or_head? (htest : ∀ candidate, test candidate = true ↔ fits candidate)
    (h : ((all pool).find? (fun place => test place.candidate) <|> (all pool).head?) = some place)
    (hmem : place ∈ all pool) (hfits : fits place.candidate) : IsFirst pool fits place := by
  refine isFirst_of_find? htest ?_
  cases hfind : (all pool).find? fun place => test place.candidate with
  | none => exact absurd ((htest _).mpr hfits) (List.find?_eq_none.mp hfind place hmem)
  | some found =>
      rw [hfind] at h
      exact h

end Placed

/-- The cooler fits into the chassis and onto the processor. -/
def Cooler.Fits (cooler : Cooler) (chassis : Chassis) (cpu : Cpu) : Prop :=
  cooler.heightMm ≤ chassis.coolerMaxHeightMm ∧ cooler.supports cpu.socket = true

namespace Pick

theorem isFirst_of_chassis? {pool : List (Candidate Chassis)} {gpu : Gpu} {place : Placed Chassis}
    (h : chassis? pool gpu = some place)
    (hfits : gpu.lengthMm ≤ place.candidate.facts.gpuMaxLengthMm) :
    Placed.IsFirst pool (fun chassis => gpu.lengthMm ≤ chassis.facts.gpuMaxLengthMm) place :=
  Placed.isFirst_of_find?_or_head? (fun _ => decide_eq_true_iff) h (mem_of_chassis? h) hfits

theorem coolerFits_iff {chassis : Chassis} {cpu : Cpu} {cooler : Cooler} :
    coolerFits chassis cpu cooler = true ↔ cooler.Fits chassis cpu := by
  rw [coolerFits, Bool.and_eq_true_iff, decide_eq_true_iff, Cooler.Fits]

theorem isFirst_of_cooler? {pool : List (Candidate Cooler)} {chassis : Chassis} {cpu : Cpu}
    {place : Placed Cooler} (h : cooler? pool chassis cpu = some place)
    (hfits : place.candidate.facts.Fits chassis cpu) :
    Placed.IsFirst pool (fun cooler => cooler.facts.Fits chassis cpu) place :=
  Placed.isFirst_of_find?_or_head? (fun _ => coolerFits_iff) h (mem_of_cooler? h) hfits

/-- No supply that is strong enough is cheaper than the one that is picked, if
    that is strong enough itself. -/
theorem price_le_of_psu? {psus : List (Candidate Psu)} {required : UInt32} {place : Placed Psu}
    (h : psu? psus required = some place) (hstrong : required ≤ place.candidate.facts.wattage)
    {psu : Candidate Psu} (hmem : psu ∈ psus) (hother : required ≤ psu.facts.wattage) :
    place.candidate.price.le psu.price = true := by
  have hpicked := map_psu?_eq
    ⟨_, Placed.candidate_mem_of_mem_all (mem_of_psu? h), hstrong⟩
  rw [h] at hpicked
  have hcandidate : psu ∈ psus.filter fun psu => required ≤ psu.facts.wattage :=
    List.mem_filter.mpr ⟨hmem, decide_eq_true hother⟩
  exact Decimal.le_iff.mpr (List.le_of_mem_argmin
    (f := fun psu : Candidate Psu => psu.price.value) hcandidate hpicked.symm)

end Pick

namespace Assembly

/-- Every pick for the build is what its preference asks for: a cheapest supply
    among those that are strong enough, the first chassis that houses the
    graphics card, and the first cooler that fits, if there is any cooler. -/
structure PicksFit (pools : CandidatePools) (assembly : Assembly) : Prop where
  psu : ∃ place, Pick.psu? pools.psus assembly.requiredWattage = some place ∧
    place.candidate = assembly.psu ∧
    assembly.requiredWattage ≤ assembly.psu.facts.wattage ∧
    ∀ psu ∈ pools.psus, assembly.requiredWattage ≤ psu.facts.wattage →
      assembly.psu.price.le psu.price = true
  chassis : ∃ place, Pick.chassis? pools.chassis assembly.gpu.facts = some place ∧
    place.candidate = assembly.chassis ∧
    place.IsFirst pools.chassis fun chassis =>
      assembly.gpu.facts.lengthMm ≤ chassis.facts.gpuMaxLengthMm
  noCooler : assembly.cooler = none ↔ pools.coolers = []
  cooler : ∀ cooler, assembly.cooler = some cooler → ∃ place,
    Pick.cooler? pools.coolers assembly.chassis.facts assembly.cpu.facts = some place ∧
    place.candidate = cooler ∧
    place.IsFirst pools.coolers fun cooler =>
      cooler.facts.Fits assembly.chassis.facts assembly.cpu.facts

/-- A pick for the combination falls back: no supply is strong enough, no chassis
    houses the graphics card, or there are coolers and none of them fits into the
    chassis that is picked and onto the processor. -/
inductive FallsBack (pools : CandidatePools) (combination : Combination) : Prop where
  | psu (h : ∀ psu ∈ pools.psus, ¬ Wattage.required combination.cpu.candidate.facts
      combination.gpu.candidate.facts ≤ psu.facts.wattage)
  | chassis (h : ∀ chassis ∈ pools.chassis,
      ¬ combination.gpu.candidate.facts.lengthMm ≤ chassis.facts.gpuMaxLengthMm)
  | cooler {place : Placed Chassis}
      (picked : Pick.chassis? pools.chassis combination.gpu.candidate.facts = some place)
      (some : pools.coolers ≠ [])
      (h : ∀ cooler ∈ pools.coolers,
        ¬ cooler.facts.Fits place.candidate.facts combination.cpu.candidate.facts)

variable {pools : CandidatePools} {combination : Combination} {assembly : Assembly}

/-- **In a compatible build no pick has fallen back.** -/
theorem Completes.picksFit (h : assembly.Completes pools combination)
    (hfits : assembly.resolved.isCompatible = true) : assembly.PicksFit pools := by
  constructor
  case psu =>
    obtain ⟨place, hplace, hpsu⟩ := Option.map_eq_some_iff.mp h.psu
    have hstrong : assembly.requiredWattage ≤ assembly.psu.facts.wattage :=
      ResolvedBuild.required_le_of_isCompatible hfits rfl rfl rfl
    refine ⟨place, hplace, hpsu, hstrong, fun psu hmem hother => ?_⟩
    rw [← hpsu] at hstrong ⊢
    exact Pick.price_le_of_psu? hplace hstrong hmem hother
  case chassis =>
    obtain ⟨place, hplace, hchassis⟩ := Option.map_eq_some_iff.mp h.chassis
    have hhoused : assembly.gpu.facts.lengthMm ≤ assembly.chassis.facts.gpuMaxLengthMm :=
      ResolvedBuild.gpuLength_le_of_isCompatible hfits rfl rfl
    exact ⟨place, hplace, hchassis, Pick.isFirst_of_chassis? hplace (hchassis ▸ hhoused)⟩
  case noCooler =>
    rw [h.cooler, Option.map_eq_none_iff]
    constructor
    · intro hnone
      by_contra hcoolers
      have hsome := Pick.cooler?_isSome assembly.chassis.facts assembly.cpu.facts hcoolers
      rw [hnone] at hsome
      exact nomatch hsome
    · intro hcoolers
      rw [hcoolers]
      rfl
  case cooler =>
    intro cooler hcooler
    have hresolved : assembly.resolved.cooler = some cooler.facts :=
      congrArg (Option.map Candidate.facts) hcooler
    have hheight := ResolvedBuild.coolerHeight_le_of_isCompatible hfits hresolved rfl
    have hsocket := ResolvedBuild.supports_of_isCompatible hfits hresolved rfl
    obtain ⟨place, hplace, hcandidate⟩ := Option.map_eq_some_iff.mp (h.cooler.symm.trans hcooler)
    refine ⟨place, hplace, hcandidate, Pick.isFirst_of_cooler? hplace ?_⟩
    rw [hcandidate]
    exact ⟨hheight, hsocket⟩

/-- A pick that falls back is not what its preference asks for. -/
theorem PicksFit.not_fallsBack (h : assembly.PicksFit pools) :
    ¬ FallsBack pools assembly.combination := by
  intro hfalls
  cases hfalls with
  | psu hweak =>
      obtain ⟨place, hplace, hpsu, hstrong, -⟩ := h.psu
      have hmem := Placed.candidate_mem_of_mem_all (Pick.mem_of_psu? hplace)
      exact hweak _ (hpsu ▸ hmem) hstrong
  | chassis hshort =>
      obtain ⟨place, hplace, -, hfirst⟩ := h.chassis
      exact hshort _ (Placed.candidate_mem_of_mem_all (Pick.mem_of_chassis? hplace)) hfirst.fits
  | cooler hpicked hsome hunfit =>
      obtain ⟨place, hplace, hchassis, -⟩ := h.chassis
      obtain ⟨cooler, hcooler⟩ := Option.ne_none_iff_exists'.mp fun hnone =>
        hsome (h.noCooler.mp hnone)
      obtain ⟨cooled, hcooled, -, hfirst⟩ := h.cooler cooler hcooler
      have hsame := Option.some.inj (hpicked.symm.trans hplace)
      refine hunfit _ (Placed.candidate_mem_of_mem_all (Pick.mem_of_cooler? hcooled)) ?_
      rw [hsame, hchassis]
      exact hfirst.fits

end Assembly

namespace Evaluation

variable {pools : CandidatePools} {machine : Machine} {weights : Weights} {budget : Decimal}
  {combination : Combination}

theorem picksFit_of_feasible {build : ChosenBuild}
    (h : of? pools machine weights budget combination = some (.feasible build)) :
    build.assembly.combination = combination ∧ build.assembly.PicksFit pools := by
  obtain ⟨hcompletes, -, -, hfits, -⟩ := of?_eq_feasible_iff.mp h
  exact ⟨hcompletes.combination, hcompletes.picksFit hfits⟩

/-- **A combination for which a pick falls back is rejected**, if its price does
    not overflow. -/
theorem rejected_of_fallsBack (h : Assembly.FallsBack pools combination)
    (hpriced : ∀ assembly, Assembly.Completes pools combination assembly →
      assembly.total? ≠ none) :
    of? pools machine weights budget combination = some .overBudget ∨
      of? pools machine weights budget combination = some .incompatible := by
  cases hevaluation : of? pools machine weights budget combination with
  | none =>
      obtain ⟨assembly, hcompletes, htotal⟩ := of?_eq_none_iff.mp hevaluation
      exact absurd htotal (hpriced assembly hcompletes)
  | some evaluation =>
      cases evaluation with
      | feasible build =>
          obtain ⟨rfl, hpicks⟩ := picksFit_of_feasible hevaluation
          exact absurd h hpicks.not_fallsBack
      | overBudget => exact Or.inl rfl
      | incompatible => exact Or.inr rfl
      | aborted => exact absurd hevaluation of?_ne_aborted

end Evaluation

namespace CandidatePools

variable {pools : CandidatePools} {machine : Machine} {weights : Weights} {budget : Decimal}

/-- What a search returns is feasible, also if the search was called off. -/
theorem feasible_of_best {calledOff : Nat → Bool} {outcome : SearchOutcome} {build : ChosenBuild}
    (h : pools.search? machine weights budget calledOff = some outcome)
    (hbest : outcome.best = some build) :
    ∃ combination ∈ pools.combinations,
      Evaluation.of? pools machine weights budget combination = some (.feasible build) := by
  obtain ⟨evaluations, hevaluations, rfl⟩ := search?_eq_some_iff.mp h
  have hdescribes := Tally.describes_ofEvaluations (distinctOrdinals hevaluations)
  have hbestOf : ChosenBuild.IsBestOf (Evaluation.builds evaluations) (some build) :=
    hbest ▸ hdescribes.best
  have hmem := Evaluation.mem_builds.mp hbestOf.1
  obtain ⟨combination, hcombination, hturn⟩ := (mem_evaluations hevaluations).mp hmem
  exact ⟨combination, hcombination, of?_of_turn?_eq_feasible hturn⟩

/-- **Fallback picks never survive.**  In a feasible build every pick is what its
    preference asks for; a combination for which a pick falls back is over the
    budget or incompatible; and no search, not even one that is called off,
    returns a build for which a pick fell back. -/
theorem fallback_never_survives (pools : CandidatePools) (machine : Machine) (weights : Weights)
    (budget : Decimal) :
    (∀ combination build,
      Evaluation.of? pools machine weights budget combination = some (.feasible build) →
        build.assembly.combination = combination ∧ build.assembly.PicksFit pools) ∧
    (∀ combination, Assembly.FallsBack pools combination →
      (∀ assembly, Assembly.Completes pools combination assembly → assembly.total? ≠ none) →
        Evaluation.of? pools machine weights budget combination = some .overBudget ∨
          Evaluation.of? pools machine weights budget combination = some .incompatible) ∧
    (∀ calledOff outcome build, pools.search? machine weights budget calledOff = some outcome →
      outcome.best = some build →
        build.assembly.PicksFit pools ∧
          ¬ Assembly.FallsBack pools build.assembly.combination) := by
  refine ⟨fun combination build => Evaluation.picksFit_of_feasible,
    fun combination => Evaluation.rejected_of_fallsBack, ?_⟩
  intro calledOff outcome build hsearch hbest
  obtain ⟨combination, -, hfeasible⟩ := feasible_of_best hsearch hbest
  obtain ⟨-, hpicks⟩ := Evaluation.picksFit_of_feasible hfeasible
  exact ⟨hpicks, hpicks.not_fallsBack⟩

/-- Pools in which some parts just fit and others just do not: the build asks for
    473 watts, and the chassis that houses the graphics card takes coolers of up
    to 160 millimetres. -/
def closeFits (psus : List (Candidate Psu)) : CandidatePools where
  cpus := [.sample 1 (.ofInt64 300) ⟨"AM5", 65, 600⟩ 2]
  motherboards := [.sample 10 (.ofInt64 150) ⟨"AM5", "DDR5", 6000, 2, 2, "ATX"⟩ 1]
  rams := [.sample 20 (.ofInt64 100) ⟨"DDR5", 5600, 100⟩ 1]
  gpus := [.sample 30 (.ofInt64 500) ⟨300, 2, 200, 1500⟩ 3]
  psus
  chassis := [.sample 50 (.ofInt64 80) ⟨299, 180, "ATX"⟩ 1,
    .sample 51 (.ofInt64 80) ⟨300, 160, "ATX"⟩ 1]
  coolers := [.sample 60 (.ofInt64 40) ⟨161, []⟩ 1, .sample 61 (.ofInt64 40) ⟨160, ["AM4"]⟩ 1,
    .sample 62 (.ofInt64 40) ⟨160, ["AM5"]⟩ 1]

/-- A supply that is one watt too weak. -/
def weakSupply : Candidate Psu := .sample 40 (.ofInt64 60) ⟨472, "ATX"⟩ 1

/-- The parts that just fit are picked; where all supplies are too weak, the
    combination is rejected although it is cheap. -/
theorem fallback_never_survives_close :
    let supplied := closeFits [weakSupply, .sample 42 (.ofInt64 95) ⟨850, "ATX"⟩ 1,
      .sample 41 (.ofInt64 90) ⟨473, "ATX"⟩ 1]
    (∃ combination build,
      Evaluation.of? supplied .usual .base (.ofInt64 1500) combination = some (.feasible build) ∧
        build.assembly.PicksFit supplied) ∧
    (∃ combination ∈ (closeFits [weakSupply]).combinations,
      Assembly.FallsBack (closeFits [weakSupply]) combination ∧
      (Evaluation.of? (closeFits [weakSupply]) .usual .base (.ofInt64 1500) combination =
          some .overBudget ∨
        Evaluation.of? (closeFits [weakSupply]) .usual .base (.ofInt64 1500) combination =
          some .incompatible)) ∧
    (∃ outcome build,
      supplied.search? .usual .base (.ofInt64 1500) (fun _ => false) = some outcome ∧
      outcome.best = some build ∧
      ¬ Assembly.FallsBack supplied build.assembly.combination ∧
      build.assembly.psu.componentId = 41 ∧ build.assembly.chassis.componentId = 51 ∧
      build.assembly.cooler.map Candidate.componentId = some 62) := by
  intro supplied
  have hsurvives := fallback_never_survives supplied .usual .base (.ofInt64 1500)
  have hfound : (supplied.search? .usual .base (.ofInt64 1500) fun _ => false).any (fun outcome =>
      outcome.best.any fun build => build.assembly.psu.componentId = 41 ∧
        build.assembly.chassis.componentId = 51 ∧
        build.assembly.cooler.map Candidate.componentId = some 62) = true := by
    decide +kernel
  obtain ⟨outcome, hsearch, hany⟩ := (Option.any_eq_true _ _).mp hfound
  obtain ⟨build, hbest, hparts⟩ := (Option.any_eq_true _ _).mp hany
  obtain ⟨combination, -, hfeasible⟩ := feasible_of_best hsearch hbest
  refine ⟨⟨combination, build, hfeasible, (hsurvives.1 _ _ hfeasible).2⟩, ?_,
    outcome, build, hsearch, hbest, (hsurvives.2.2 _ _ _ hsearch hbest).2,
    of_decide_eq_true hparts⟩
  obtain ⟨first, hfirst⟩ : ∃ first, (closeFits [weakSupply]).combinations = [first] := ⟨_, rfl⟩
  have hweak : Assembly.FallsBack (closeFits [weakSupply]) first := by
    obtain rfl := (List.cons.inj hfirst).1
    refine .psu fun psu hmem => ?_
    obtain rfl := List.mem_singleton.mp hmem
    decide +kernel
  have hends : ((closeFits [weakSupply]).search? .usual .base (.ofInt64 1500)
      fun _ => false).isSome = true := by
    decide +kernel
  have hmem : first ∈ (closeFits [weakSupply]).combinations := hfirst ▸ List.mem_singleton_self _
  have hpriced := exists_search?_iff.mp (Option.isSome_iff_exists.mp hends) first hmem
  exact ⟨first, hmem, hweak,
    (fallback_never_survives _ .usual .base (.ofInt64 1500)).2.1 first hweak hpriced⟩

end CandidatePools

end PcAssembly
