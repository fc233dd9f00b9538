import PcAssembly.Proofs.Build.Soundness

/-! # What a request comes to

    A request is decided by the first of five things: its budget, the catalog,
    the pools that have to be filled, whether any combination is feasible, and
    which of them is the best.  `Settles` says this case by case and without
    the program.  Unless a price overflows, the run of a request has the
    outcome that the request settles on and no other; so it succeeds exactly
    when some combination is feasible, and all rejected combinations are
    accounted for.  Coolers and drives may be missing. -/

namespace PcAssembly

namespace CandidatePools

variable {pools : CandidatePools} {machine : Machine} {weights : Weights} {budget : Decimal}

/-- No build that the pools offer has a price that overflows. -/
def Priced (pools : CandidatePools) : Prop :=
  ∀ combination ∈ pools.combinations, ∀ assembly,
    Assembly.Completes pools combination assembly → assembly.total? ≠ none

/-- No price overflows if a search comes to an end. -/
theorem priced_of_isSome
    (h : (pools.search? machine weights budget fun _ => false).isSome = true) : pools.Priced :=
  exists_search?_iff.mp (Option.isSome_iff_exists.mp h)

/-- Some combination is feasible. -/
def HasFeasible (pools : CandidatePools) (machine : Machine) (weights : Weights)
    (budget : Decimal) : Prop :=
  ∃ combination ∈ pools.combinations, ∃ build,
    Evaluation.of? pools machine weights budget combination = some (.feasible build)

/-- How many combinations are evaluated to one of a kind. -/
def count (pools : CandidatePools) (machine : Machine) (weights : Weights) (budget : Decimal)
    (kind : Evaluation → Bool) : Nat :=
  pools.combinations.countP fun combination =>
    (Evaluation.of? pools machine weights budget combination).any kind

/-- No pool is empty but perhaps those of coolers and drives. -/
def IsFilled (pools : CandidatePools) : Prop :=
  ∀ category, pools.pool category = [] → category = .cooler ∨ category = .storage

/-- The pool of this category has to be filled and is empty, and no pool that
    is looked at earlier is empty. -/
def IsFirstEmpty (pools : CandidatePools) (category : Category) : Prop :=
  pools.pool category = [] ∧ ∃ earlier later,
    [Category.cpu, .motherboard, .ram, .gpu, .psu, .chassis] = earlier ++ category :: later ∧
      ∀ other ∈ earlier, pools.pool other ≠ []

/-- Whoever can complete a combination has a candidate for every slot that has
    to be filled. -/
theorem isFilled_of_completes {combination : Combination} {assembly : Assembly}
    (hmem : combination ∈ pools.combinations)
    (hcompletes : assembly.Completes pools combination) : pools.IsFilled := by
  have hoffers := offers_of_mem hmem
  intro category hempty
  cases category with
  | cpu => exact absurd hempty (List.ne_nil_of_mem (Placed.candidate_mem_of_mem_all hoffers.cpu))
  | motherboard =>
      exact absurd hempty (List.ne_nil_of_mem (Placed.candidate_mem_of_mem_all hoffers.motherboard))
  | ram => exact absurd hempty (List.ne_nil_of_mem (Placed.candidate_mem_of_mem_all hoffers.ram))
  | gpu => exact absurd hempty (List.ne_nil_of_mem (Placed.candidate_mem_of_mem_all hoffers.gpu))
  | psu => exact absurd hempty (List.ne_nil_of_mem hcompletes.psu_mem)
  | chassis => exact absurd hempty (List.ne_nil_of_mem hcompletes.chassis_mem)
  | cooler => exact Or.inl rfl
  | storage => exact Or.inr rfl

theorem HasFeasible.isFilled (h : pools.HasFeasible machine weights budget) : pools.IsFilled := by
  obtain ⟨combination, hmem, build, hfeasible⟩ := h
  exact isFilled_of_completes hmem (Evaluation.of?_eq_feasible_iff.mp hfeasible).1

/-- Where nothing can be completed, no price can overflow. -/
theorem priced_of_not_isFilled (h : ¬ pools.IsFilled) : pools.Priced :=
  fun _ hmem _ hcompletes => absurd (isFilled_of_completes hmem hcompletes) h

theorem count_isFeasible_eq_zero_iff :
    pools.count machine weights budget Evaluation.isFeasible = 0 ↔
      ¬ pools.HasFeasible machine weights budget := by
  rw [count, List.countP_eq_zero]
  constructor
  · rintro hnone ⟨combination, hmem, build, hfeasible⟩
    refine hnone combination hmem ?_
    rw [hfeasible]
    rfl
  · intro hnone combination hmem hany
    obtain ⟨evaluation, hevaluation, hkind⟩ := (Option.any_eq_true _ _).mp hany
    cases evaluation with
    | feasible build => exact hnone ⟨combination, hmem, build, hevaluation⟩
    | overBudget => exact nomatch hkind
    | incompatible => exact nomatch hkind
    | aborted => exact nomatch hkind

/-! ## What a search leaves -/

variable {outcome : SearchOutcome}

theorem best_eq_none_iff_not_hasFeasible
    (h : pools.search? machine weights budget (fun _ => false) = some outcome) :
    outcome.best = none ↔ ¬ pools.HasFeasible machine weights budget := by
  rw [best_eq_none_iff h]
  constructor
  · rintro hnever ⟨combination, hmem, build, hfeasible⟩
    exact hnever combination hmem build hfeasible
  · intro hnone combination hmem build hfeasible
    exact hnone ⟨combination, hmem, build, hfeasible⟩

/-- The counts of a search are those of its combinations, none left out. -/
theorem counts_of_search
    (h : pools.search? machine weights budget (fun _ => false) = some outcome) :
    outcome.combinations = pools.combinations.length ∧
      outcome.overBudget = pools.count machine weights budget Evaluation.isOverBudget ∧
      outcome.incompatible = pools.count machine weights budget Evaluation.isIncompatible ∧
      outcome.overBudget + outcome.incompatible +
        pools.count machine weights budget Evaluation.isFeasible = outcome.combinations := by
  obtain ⟨hoverBudget, hincompatible, htogether, -⟩ := counts h
  obtain ⟨evaluations, -, hcombinations⟩ := search?_eq_some_iff.mp h
  exact ⟨congrArg SearchOutcome.combinations hcombinations, hoverBudget, hincompatible, htogether⟩

/-- If nothing is feasible, every combination is over the budget or
    incompatible. -/
theorem length_combinations_of_not_hasFeasible (hpriced : pools.Priced)
    (hnone : ¬ pools.HasFeasible machine weights budget) :
    pools.combinations.length =
      pools.count machine weights budget Evaluation.isOverBudget +
        pools.count machine weights budget Evaluation.isIncompatible := by
  have hends : ∃ outcome, pools.search? machine weights budget (fun _ => false) = some outcome :=
    exists_search?_iff.mpr hpriced
  obtain ⟨outcome, hsearch⟩ := hends
  obtain ⟨hcombinations, hoverBudget, hincompatible, htogether⟩ := counts_of_search hsearch
  rw [count_isFeasible_eq_zero_iff.mpr hnone, Nat.add_zero] at htogether
  rw [← hcombinations, ← htogether, hoverBudget, hincompatible]

end CandidatePools

/-! ## Coolers and drives may be missing -/

namespace Assembly

variable {pools : CandidatePools} {coolers : List (Candidate Cooler)}
  {storage : List (Candidate Drive)} {combination : Combination} {assembly : Assembly}

/-- The build with its cooler and its drives chosen from these pools. -/
def furnished (pools : CandidatePools) (assembly : Assembly) : Assembly :=
  { assembly with
    cooler := (Pick.cooler? pools.coolers assembly.chassis.facts assembly.cpu.facts).map
      Placed.candidate
    storage := pools.storage.take storagePicks }

/-- Supply and chassis do not depend on coolers and drives. -/
theorem Completes.furnished
    (h : assembly.Completes { pools with coolers, storage } combination) :
    (assembly.furnished pools).Completes pools combination :=
  ⟨h.combination, h.psu, h.chassis, rfl, rfl⟩

/-- Where there are no coolers or no drives, a build has a slot unfilled that
    other coolers or drives would fill; the rest is the same. -/
theorem Completes.isPartOf (hcoolers : pools.coolers = [] ∨ coolers = pools.coolers)
    (hstorage : pools.storage = [] ∨ storage = pools.storage)
    (h : assembly.Completes { pools with coolers, storage } combination) :
    (assembly.furnished pools).resolved.IsPartOf assembly.resolved := by
  refine ⟨fun _ => id, fun _ => id, fun _ => id, fun _ => id, fun _ => id, fun _ => id, ?_, ?_⟩
  · intro cooler hcooler
    rcases hcoolers with hnone | hsame
    · rw [resolved, Assembly.furnished, hnone] at hcooler
      cases hcooler
    · rw [← hcooler, resolved, h.cooler, hsame]
      rfl
  · rcases hstorage with hnone | hsame
    · rw [resolved, Assembly.furnished, hnone]
      exact List.nil_sublist _
    · rw [resolved, resolved, h.storage, hsame]
      exact List.Sublist.refl _

end Assembly

/-- Where there is no cooler or no drive to choose from, that is not what makes
    a combination incompatible: it would not be feasible with any coolers or
    drives in their place. -/
theorem Evaluation.not_feasible_of_incompatible {pools : CandidatePools} {machine : Machine}
    {weights : Weights} {budget : Decimal} {coolers : List (Candidate Cooler)}
    {storage : List (Candidate Drive)}
    {combination : Combination} (hcoolers : pools.coolers = [] ∨ coolers = pools.coolers)
    (hstorage : pools.storage = [] ∨ storage = pools.storage)
    (h : of? pools machine weights budget combination = some .incompatible) (build : ChosenBuild) :
    of? { pools with coolers, storage } machine weights budget combination ≠
      some (.feasible build) := by
  intro hfeasible
  obtain ⟨hcompletes, -, -, hfits, -⟩ := of?_eq_feasible_iff.mp hfeasible
  rw [of?_of_completes hcompletes.furnished] at h
  obtain ⟨total, -, hverdict⟩ := Option.map_eq_some_iff.mp h
  have hbreaks := (verdict_eq_incompatible_iff.mp hverdict).2
  rw [(hcompletes.isPartOf hcoolers hstorage).isCompatible hfits] at hbreaks
  exact nomatch hbreaks

namespace AutoBuild

open CandidatePools

variable {workshop : Workshop} {settings : EngineSettings} {request : BuildRequest}

/-- No price overflows when the request is searched for; if its budget is not
    positive or there is no catalog, it is not. -/
def PricedRequest (workshop : Workshop) (settings : EngineSettings) (request : BuildRequest) :
    Prop :=
  0 < request.budget.toInt → ∀ items, workshop.catalog = .ok items →
    (requestPools workshop settings request items).Priced

/-- What a request comes to.  The cases exclude each other: each one needs that
    none of those before it applies. -/
inductive Settles (workshop : Workshop) (settings : EngineSettings) (request : BuildRequest) :
    Except BuildError BuildResult → Prop
  /-- The budget is not positive; the catalog does not matter. -/
  | invalidBudget (hbudget : request.budget.toInt ≤ 0) :
      Settles workshop settings request (.error (.invalidRequest "budget"
        s!"must be greater than zero, got {request.budget.toInt}"))
  /-- There is no catalog; the request fails for the same reason. -/
  | noCatalog {error : BuildError} (hbudget : 0 < request.budget.toInt)
      (hcatalog : workshop.catalog = .error error) :
      Settles workshop settings request (.error error)
  /-- A slot that has to be filled has no candidate; the first one is named. -/
  | emptyPool {items : List CatalogItem} {category : Category}
      (hbudget : 0 < request.budget.toInt) (hcatalog : workshop.catalog = .ok items)
      (hempty : (requestPools workshop settings request items).IsFirstEmpty category) :
      Settles workshop settings request
        (.error (.notPossible (Decimal.ofInt64 request.budget) (.emptyPool category)))
  /-- No combination is feasible; those of each kind are counted. -/
  | allRejected {items : List CatalogItem} {pools : CandidatePools}
      (hbudget : 0 < request.budget.toInt) (hcatalog : workshop.catalog = .ok items)
      (hpools : pools = requestPools workshop settings request items)
      (hfilled : pools.IsFilled)
      (hnone : ¬ pools.HasFeasible workshop.machine (Weights.ofTags request.priorities)
        (Decimal.ofInt64 request.budget)) :
      Settles workshop settings request
        (.error (.notPossible (Decimal.ofInt64 request.budget) (.allRejected
          pools.combinations.length
          (pools.count workshop.machine (Weights.ofTags request.priorities)
            (Decimal.ofInt64 request.budget)
            Evaluation.isOverBudget)
          (pools.count workshop.machine (Weights.ofTags request.priorities)
            (Decimal.ofInt64 request.budget)
            Evaluation.isIncompatible))))
  /-- The best feasible combination is built. -/
  | built {items : List CatalogItem} {combination : Combination} {build : ChosenBuild}
      (hbudget : 0 < request.budget.toInt) (hcatalog : workshop.catalog = .ok items)
      (hoptimum : (requestPools workshop settings request items).IsOptimum
        workshop.machine (Weights.ofTags request.priorities) (Decimal.ofInt64 request.budget)
          combination build) :
      Settles workshop settings request (.ok (finish workshop settings request build))

theorem emptySlot?_eq_some_iff {pools : CandidatePools} {category : Category} :
    emptySlot? pools = some category ↔ pools.IsFirstEmpty category := by
  rw [emptySlot?, List.find?_eq_some_iff_append, IsFirstEmpty]
  simp only [CandidatePools.size, requiredSlots, decide_eq_true_eq, Bool.not_eq_true',
    decide_eq_false_iff_not, List.length_eq_zero_iff, ne_eq]

theorem emptySlot?_eq_none_iff {pools : CandidatePools} :
    emptySlot? pools = none ↔ pools.IsFilled := by
  rw [emptySlot?, List.find?_eq_none]
  simp only [CandidatePools.size, decide_eq_true_eq, List.length_eq_zero_iff]
  constructor
  · intro hfull category hempty
    by_cases hrequired : category ∈ requiredSlots
    · exact absurd hempty (hfull category hrequired)
    · cases category <;> first
        | exact Or.inl rfl
        | exact Or.inr rfl
        | exact absurd (by decide) hrequired
  · intro hfilled category hrequired hempty
    rcases hfilled category hempty with rfl | rfl <;> exact absurd hrequired (by decide)

/-- A search of filled pools that finds nothing reports its counts. -/
theorem chooseFrom_of_best_eq_none {pools : CandidatePools} {machine : Machine} {weights : Weights}
    {budget : Decimal} {outcome : SearchOutcome} (hfilled : pools.IsFilled)
    (hsearch : pools.search? machine weights budget (fun _ => false) = some outcome)
    (hbest : outcome.best = none) :
    chooseFrom pools machine weights budget = .error (.notPossible budget
      (.allRejected outcome.combinations outcome.overBudget outcome.incompatible)) := by
  rw [chooseFrom, emptySlot?_eq_none_iff.mpr hfilled]
  simp only [hsearch, hbest]

/-- A run with a positive budget and a catalog chooses from the pools of the
    request. -/
theorem run_of_catalog {items : List CatalogItem} (hbudget : 0 < request.budget.toInt)
    (hcatalog : workshop.catalog = .ok items) :
    run workshop settings request false =
      (chooseFrom (requestPools workshop settings request items)
        workshop.machine (Weights.ofTags request.priorities) (Decimal.ofInt64 request.budget)).map
          (finish workshop settings request) := by
  rw [run, choose, hcatalog, if_neg (Int.not_le.mpr hbudget)]
  rfl

/-- A price that overflows is the one thing that makes a request fail in
    another way. -/
theorem run_of_not_priced {items : List CatalogItem} (hbudget : 0 < request.budget.toInt)
    (hcatalog : workshop.catalog = .ok items)
    (hoverflow : ¬ (requestPools workshop settings request items).Priced) :
    run workshop settings request false = .error (.internal "a price is too large") := by
  have hfilled : (requestPools workshop settings request items).IsFilled := by
    by_contra hempty
    exact hoverflow (priced_of_not_isFilled hempty)
  have hsearch : (requestPools workshop settings request items).search?
      workshop.machine (Weights.ofTags request.priorities) (Decimal.ofInt64 request.budget)
        (fun _ => false) = none := by
    by_contra hends
    exact hoverflow (exists_search?_iff.mp (Option.ne_none_iff_exists'.mp hends))
  rw [run_of_catalog hbudget hcatalog, chooseFrom, emptySlot?_eq_none_iff.mpr hfilled, hsearch]
  rfl

/-- A request that fails in no such way has pools in which no price overflows. -/
theorem priced_of_run {outcome : Except BuildError BuildResult}
    (hrun : run workshop settings request false = outcome)
    (houtcome : outcome ≠ .error (.internal "a price is too large")) :
    PricedRequest workshop settings request := by
  intro hbudget items hcatalog
  by_contra hoverflow
  exact houtcome (hrun.symm.trans (run_of_not_priced hbudget hcatalog hoverflow))

/-- The outcome that a request settles on is that of its run. -/
theorem run_eq_of_settles (hpriced : PricedRequest workshop settings request)
    {outcome : Except BuildError BuildResult} (h : Settles workshop settings request outcome) :
    run workshop settings request false = outcome := by
  cases h with
  | invalidBudget hbudget =>
      rw [run, choose, if_pos hbudget]
      rfl
  | noCatalog hbudget hcatalog =>
      rw [run, choose, if_neg (Int.not_le.mpr hbudget), hcatalog]
      rfl
  | emptyPool hbudget hcatalog hempty =>
      rw [run_of_catalog hbudget hcatalog, chooseFrom, emptySlot?_eq_some_iff.mpr hempty]
      rfl
  | allRejected hbudget hcatalog hpools hfilled hnone =>
      subst hpools
      obtain ⟨outcome, hsearch⟩ := exists_search?_iff.mpr (hpriced hbudget _ hcatalog)
      obtain ⟨hcombinations, hoverBudget, hincompatible, -⟩ := counts_of_search hsearch
      have hbest := (best_eq_none_iff_not_hasFeasible hsearch).mpr hnone
      rw [run_of_catalog hbudget hcatalog, chooseFrom_of_best_eq_none hfilled hsearch hbest,
        hcombinations, hoverBudget, hincompatible]
      rfl
  | built hbudget hcatalog hoptimum =>
      obtain ⟨outcome, hsearch⟩ := exists_search?_iff.mpr (hpriced hbudget _ hcatalog)
      have hfeasible : HasFeasible _ _ _ _ := ⟨_, hoptimum.mem, _, hoptimum.feasible⟩
      have hbest := (best_eq_some_iff hsearch).mpr ⟨_, hoptimum⟩
      have hchosen := chooseFrom_eq_ok_iff.mpr
        ⟨emptySlot?_eq_none_iff.mpr hfeasible.isFilled, outcome, hsearch, hbest⟩
      rw [run_of_catalog hbudget hcatalog, hchosen]
      rfl

/-- Every request settles on some outcome. -/
theorem exists_settles (hpriced : PricedRequest workshop settings request) :
    ∃ outcome, Settles workshop settings request outcome := by
  by_cases hbudget : request.budget.toInt ≤ 0
  · exact ⟨_, .invalidBudget hbudget⟩
  · have hpositive : 0 < request.budget.toInt := Int.not_le.mp hbudget
    cases hcatalog : workshop.catalog with
    | error error => exact ⟨_, .noCatalog hpositive hcatalog⟩
    | ok items =>
        cases hempty : emptySlot? (requestPools workshop settings request items) with
        | some category =>
            exact ⟨_, .emptyPool hpositive hcatalog (emptySlot?_eq_some_iff.mp hempty)⟩
        | none =>
            -- the pools are filled, so the search decides
            have hfilled := emptySlot?_eq_none_iff.mp hempty
            obtain ⟨outcome, hsearch⟩ := exists_search?_iff.mpr (hpriced hpositive items hcatalog)
            cases hbest : outcome.best with
            | none =>
                exact ⟨_, .allRejected hpositive hcatalog rfl hfilled
                  ((best_eq_none_iff_not_hasFeasible hsearch).mp hbest)⟩
            | some build =>
                obtain ⟨combination, hoptimum⟩ := (best_eq_some_iff hsearch).mp hbest
                exact ⟨_, .built hpositive hcatalog hoptimum⟩

theorem run_eq_iff_settles (hpriced : PricedRequest workshop settings request)
    {outcome : Except BuildError BuildResult} :
    run workshop settings request false = outcome ↔
      Settles workshop settings request outcome := by
  constructor
  · intro hrun
    obtain ⟨settled, hsettled⟩ := exists_settles hpriced
    rw [← hrun, run_eq_of_settles hpriced hsettled]
    exact hsettled
  · exact run_eq_of_settles hpriced

/-- A run succeeds exactly when the budget is positive, there is a catalog,
    and some combination of the request's pools is feasible. -/
theorem exists_run_eq_ok_iff (hpriced : PricedRequest workshop settings request) :
    (∃ result, run workshop settings request false = .ok result) ↔
      0 < request.budget.toInt ∧ ∃ items, workshop.catalog = .ok items ∧
        (requestPools workshop settings request items).HasFeasible
          workshop.machine (Weights.ofTags request.priorities)
            (Decimal.ofInt64 request.budget) := by
  constructor
  · rintro ⟨result, hrun⟩
    cases (run_eq_iff_settles hpriced).mp hrun with
    | built hbudget hcatalog hoptimum =>
        exact ⟨hbudget, _, hcatalog, _, hoptimum.mem, _, hoptimum.feasible⟩
  · rintro ⟨hbudget, items, hcatalog, hfeasible⟩
    obtain ⟨outcome, hsearch⟩ := exists_search?_iff.mpr (hpriced hbudget items hcatalog)
    have hbest : outcome.best ≠ none := fun hnone =>
      (best_eq_none_iff_not_hasFeasible hsearch).mp hnone hfeasible
    obtain ⟨build, hbuild⟩ := Option.ne_none_iff_exists'.mp hbest
    obtain ⟨combination, hoptimum⟩ := (best_eq_some_iff hsearch).mp hbuild
    exact ⟨_, run_eq_of_settles hpriced (.built hbudget hcatalog hoptimum)⟩

/-- **The outcome of a request is decided in order.**  If no price overflows,
    the run of a request has exactly the outcome that the request settles on:
    a budget that is not positive is refused whatever the catalog, a catalog
    that cannot be had is reported as it is, the first empty pool is named, and
    otherwise the best feasible combination is built.  If there is none, every
    combination is counted as over the budget or as incompatible.  A run
    succeeds exactly when some combination is feasible.  No error is about
    coolers or drives: none names their pools, and a combination that is
    incompatible where there are none would not be feasible with others. -/
theorem run_settles (workshop : Workshop) (settings : EngineSettings) (request : BuildRequest)
    (hpriced : PricedRequest workshop settings request) :
    (∀ outcome, run workshop settings request false = outcome ↔
      Settles workshop settings request outcome) ∧
    ((∃ result, run workshop settings request false = .ok result) ↔
      0 < request.budget.toInt ∧ ∃ items, workshop.catalog = .ok items ∧
        (requestPools workshop settings request items).HasFeasible
          workshop.machine (Weights.ofTags request.priorities) (Decimal.ofInt64 request.budget)) ∧
    ∀ items, workshop.catalog = .ok items →
      (∀ budget combinations overBudget incompatible,
        run workshop settings request false = .error (.notPossible budget
          (.allRejected combinations overBudget incompatible)) →
        combinations = overBudget + incompatible) ∧
      (∀ budget category,
        run workshop settings request false = .error (.notPossible budget (.emptyPool category)) →
        category ≠ .cooler ∧ category ≠ .storage) ∧
      let pools := requestPools workshop settings request items
      ∀ coolers storage, (pools.coolers = [] ∨ coolers = pools.coolers) →
        (pools.storage = [] ∨ storage = pools.storage) →
        ∀ machine weights budget combination,
          Evaluation.of? pools machine weights budget combination = some .incompatible →
          ∀ build,
            Evaluation.of? { pools with coolers, storage } machine weights budget combination ≠
              some (.feasible build) := by
  refine ⟨fun outcome => run_eq_iff_settles hpriced, exists_run_eq_ok_iff hpriced, ?_⟩
  intro items hcatalog
  refine ⟨?_, ?_, ?_⟩
  · intro budget combinations overBudget incompatible hrun
    cases (run_eq_iff_settles hpriced).mp hrun with
    | noCatalog _ herror => exact nomatch hcatalog.symm.trans herror
    | allRejected hbudget hitems hpools _ hnone =>
        subst hpools
        exact length_combinations_of_not_hasFeasible (hpriced hbudget _ hitems) hnone
  · intro budget category hrun
    cases (run_eq_iff_settles hpriced).mp hrun with
    | noCatalog _ herror => exact nomatch hcatalog.symm.trans herror
    | emptyPool _ _ hempty =>
        obtain ⟨-, earlier, later, hslots, -⟩ := hempty
        have hslot : category ∈ requiredSlots := by
          rw [requiredSlots, hslots]
          exact List.mem_append_right _ List.mem_cons_self
        constructor <;> rintro rfl <;> exact absurd hslot (by decide)
  · intro pools coolers storage hcoolers hstorage machine weights budget combination
    exact Evaluation.not_feasible_of_incompatible hcoolers hstorage

/-- The pools of the sample for a budget of one hundred. -/
def samplePools : CandidatePools :=
  match sampleWorkshop.catalog with
  | .ok items => requestPools sampleWorkshop {} { budget := 100 } items
  | .error _ => {}

/-- The one combination of the sample costs eight hundred, which is too much
    for a budget of one hundred. -/
theorem run_settles_rejected :
    PricedRequest sampleWorkshop {} { budget := 100 } ∧
    run sampleWorkshop {} { budget := 100 } false =
      .error (.notPossible (.ofInt64 100) (.allRejected 1 1 0)) ∧
    ¬ samplePools.HasFeasible .usual .base (.ofInt64 100) := by
  have hpriced : samplePools.Priced := by
    have hends : (samplePools.search? .usual .base (.ofInt64 100)
        fun _ => false).isSome = true := by
      decide +kernel
    exact priced_of_isSome hends
  have hrequest : PricedRequest sampleWorkshop {} { budget := 100 } := by
    rintro - items ⟨⟩
    exact hpriced
  obtain ⟨hsettles, -⟩ := run_settles sampleWorkshop {} { budget := 100 } hrequest
  have hnone : ¬ samplePools.HasFeasible .usual .base (.ofInt64 100) :=
    count_isFeasible_eq_zero_iff.mp (by decide +kernel)
  have hcounts : Shortage.allRejected samplePools.combinations.length
      (samplePools.count .usual .base (.ofInt64 100) Evaluation.isOverBudget)
      (samplePools.count .usual .base (.ofInt64 100) Evaluation.isIncompatible) =
        .allRejected 1 1 0 := by
    decide +kernel
  have hsettled : Settles sampleWorkshop {} { budget := 100 }
      (.error (.notPossible (.ofInt64 100) (.allRejected 1 1 0))) := by
    rw [← hcounts]
    exact .allRejected (by decide) rfl rfl (emptySlot?_eq_none_iff.mp (by decide +kernel)) hnone
  exact ⟨hrequest, (hsettles _).mpr hsettled, hnone⟩

end AutoBuild

end PcAssembly
