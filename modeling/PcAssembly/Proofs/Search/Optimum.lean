import PcAssembly.Proofs.List.FailingMap
import PcAssembly.Proofs.Search.Evaluation
import PcAssembly.Proofs.Search.Reduction

/-! # What a search finds

    A search evaluates every combination once and takes the tally of the
    evaluations.  Ordinals tell combinations apart, so the tally describes the
    evaluations without loss: its best build is the optimum of the feasible
    combinations, by score and then by ordinal, and its counts are those of
    the combinations of each kind. -/

namespace PcAssembly

namespace Evaluation

/-- A feasible build has the ordinal of its combination. -/
theorem ordinal_of_feasible {pools : CandidatePools} {machine : Machine} {weights : Weights}
    {budget : Decimal} {combination : Combination} {build : ChosenBuild}
    (h : of? pools machine weights budget combination = some (.feasible build)) :
    build.ordinal = combination.ordinal :=
  congrArg Combination.ordinal (of?_eq_feasible_iff.mp h).1.combination

/-- Every evaluation that was not aborted is of one of three kinds. -/
theorem countP_kinds {evaluations : List Evaluation} (h : aborted ∉ evaluations) :
    evaluations.countP isOverBudget + evaluations.countP isIncompatible +
      evaluations.countP isFeasible = evaluations.length := by
  induction evaluations with
  | nil => rfl
  | cons evaluation rest ih =>
      have hrest := ih fun hmem => h (List.mem_cons_of_mem _ hmem)
      simp only [List.countP_cons, List.length_cons]
      cases evaluation with
      | aborted => exact absurd List.mem_cons_self h
      | _ =>
          simp only [isOverBudget, isIncompatible, isFeasible, if_true, Bool.false_eq_true,
            if_false]
          omega

end Evaluation

namespace CandidatePools

open Evaluation (builds DistinctOrdinals)

variable {pools : CandidatePools} {machine : Machine} {weights : Weights} {budget : Decimal}
  {calledOff : Nat → Bool}

/-- What becomes of a combination when its turn comes. -/
def turn? (pools : CandidatePools) (machine : Machine) (weights : Weights) (budget : Decimal)
    (calledOff : Nat → Bool) (combination : Combination) : Option Evaluation :=
  if calledOff combination.ordinal then some .aborted
  else Evaluation.of? pools machine weights budget combination

/-- The turn of a combination in a search that is not called off. -/
theorem turn?_never (combination : Combination) :
    pools.turn? machine weights budget (fun _ => false) combination =
      Evaluation.of? pools machine weights budget combination := rfl

theorem of?_of_turn?_eq_feasible {combination : Combination} {build : ChosenBuild}
    (h : pools.turn? machine weights budget calledOff combination = some (.feasible build)) :
    Evaluation.of? pools machine weights budget combination = some (.feasible build) := by
  rw [turn?] at h
  split at h
  · exact nomatch h
  · exact h

theorem evaluations?_eq_some_iff {evaluations : List Evaluation} :
    pools.evaluations? machine weights budget calledOff = some evaluations ↔
      pools.combinations.map (pools.turn? machine weights budget calledOff) =
        evaluations.map some :=
  mapM_eq_some_iff

/-- The feasible builds come in the order of their combinations. -/
private theorem ordinals_sublist (combinations : List Combination) :
    ∀ evaluations : List Evaluation,
      combinations.map (pools.turn? machine weights budget calledOff) = evaluations.map some →
        ((builds evaluations).map ChosenBuild.ordinal).Sublist
          (combinations.map Combination.ordinal) := by
  induction combinations with
  | nil =>
      intro evaluations h
      have hnil : evaluations = [] := List.map_eq_nil_iff.mp h.symm
      rw [hnil]
      exact List.Sublist.refl _
  | cons combination rest ih =>
      intro evaluations h
      cases evaluations with
      | nil => exact nomatch h
      | cons evaluation evaluations =>
          rw [List.map_cons, List.map_cons, List.cons.injEq] at h
          obtain ⟨hhead, htail⟩ := h
          have hrest := ih evaluations htail
          rw [List.map_cons]
          cases evaluation with
          -- only a feasible combination leaves a build, with the ordinal that it has itself
          | feasible build =>
              have hord : build.ordinal = combination.ordinal :=
                Evaluation.ordinal_of_feasible (of?_of_turn?_eq_feasible hhead)
              rw [← hord]
              exact hrest.cons_cons _
          | overBudget => exact hrest.cons _
          | incompatible => exact hrest.cons _
          | aborted => exact hrest.cons _

theorem distinctOrdinals {evaluations : List Evaluation}
    (h : pools.evaluations? machine weights budget calledOff = some evaluations) :
    DistinctOrdinals evaluations :=
  (ordinals_sublist _ _ (evaluations?_eq_some_iff.mp h)).nodup pools.nodup_ordinals

theorem mem_evaluations {evaluations : List Evaluation} {evaluation : Evaluation}
    (h : pools.evaluations? machine weights budget calledOff = some evaluations) :
    evaluation ∈ evaluations ↔ ∃ combination ∈ pools.combinations,
      pools.turn? machine weights budget calledOff combination = some evaluation := by
  have hmap := evaluations?_eq_some_iff.mp h
  rw [← List.mem_map, hmap, List.mem_map]
  simp

/-- Evaluations are counted by their combinations. -/
theorem countP_evaluations {evaluations : List Evaluation} (kind : Evaluation → Bool)
    (h : pools.evaluations? machine weights budget calledOff = some evaluations) :
    evaluations.countP kind = pools.combinations.countP fun combination =>
      (pools.turn? machine weights budget calledOff combination).any kind := by
  have hmap := evaluations?_eq_some_iff.mp h
  have hcount : (evaluations.map some).countP (Option.any kind) = evaluations.countP kind := by
    rw [List.countP_map]
    rfl
  rw [← hcount, ← hmap, List.countP_map]
  rfl

/-! ## The outcome -/

variable {outcome : SearchOutcome}

theorem search?_eq_some_iff :
    pools.search? machine weights budget calledOff = some outcome ↔
      ∃ evaluations, pools.evaluations? machine weights budget calledOff = some evaluations ∧
        outcome = {
          best := (Tally.ofEvaluations evaluations).best
          combinations := pools.combinations.length
          overBudget := (Tally.ofEvaluations evaluations).overBudget
          incompatible := (Tally.ofEvaluations evaluations).incompatible
          aborted := (Tally.ofEvaluations evaluations).aborted } := by
  rw [search?, Option.map_eq_some_iff]
  simp only [eq_comm]

/-- A search that is not called off comes to an end exactly when no price
    overflows. -/
theorem exists_search?_iff :
    (∃ outcome, pools.search? machine weights budget (fun _ => false) = some outcome) ↔
      ∀ combination ∈ pools.combinations, ∀ assembly,
        Assembly.Completes pools combination assembly → assembly.total? ≠ none := by
  constructor
  · rintro ⟨outcome, houtcome⟩ combination hmem assembly hcompletes htotal
    obtain ⟨evaluations, hevaluations, -⟩ := search?_eq_some_iff.mp houtcome
    have hnone : Evaluation.of? pools machine weights budget combination = none :=
      Evaluation.of?_eq_none_iff.mpr ⟨assembly, hcompletes, htotal⟩
    have himage : none ∈ evaluations.map some :=
      evaluations?_eq_some_iff.mp hevaluations ▸ List.mem_map.mpr ⟨combination, hmem, hnone⟩
    obtain ⟨_, _, hsome⟩ := List.mem_map.mp himage
    exact nomatch hsome
  · intro hpriced
    have hturn : ∀ combination ∈ pools.combinations,
        pools.turn? machine weights budget (fun _ => false) combination ≠ none := by
      intro combination hmem hnone
      rw [turn?_never, Evaluation.of?_eq_none_iff] at hnone
      obtain ⟨assembly, hcompletes, htotal⟩ := hnone
      exact hpriced combination hmem assembly hcompletes htotal
    obtain ⟨evaluations, hevaluations⟩ := exists_map_eq_map_some hturn
    exact ⟨_, search?_eq_some_iff.mpr
      ⟨evaluations, evaluations?_eq_some_iff.mpr hevaluations, rfl⟩⟩

/-- The best build of a search is the best of the builds that are feasible. -/
theorem isBestOf_best (h : pools.search? machine weights budget (fun _ => false) = some outcome) :
    ∃ feasible : List ChosenBuild, ChosenBuild.IsBestOf feasible outcome.best ∧
      ∀ build, build ∈ feasible ↔ ∃ combination ∈ pools.combinations,
        Evaluation.of? pools machine weights budget combination = some (.feasible build) := by
  obtain ⟨evaluations, hevaluations, rfl⟩ := search?_eq_some_iff.mp h
  refine ⟨builds evaluations,
    (Tally.describes_ofEvaluations (distinctOrdinals hevaluations)).best, fun build => ?_⟩
  exact Evaluation.mem_builds.trans (mem_evaluations hevaluations)

/-- `build` is what the best of all feasible combinations amounts to: every
    other feasible combination has a smaller score in the total order of
    doubles, or the same score and a larger ordinal. -/
structure IsOptimum (pools : CandidatePools) (machine : Machine) (weights : Weights)
    (budget : Decimal) (combination : Combination) (build : ChosenBuild) : Prop where
  mem : combination ∈ pools.combinations
  feasible : Evaluation.of? pools machine weights budget combination = some (.feasible build)
  best : ∀ other ∈ pools.combinations, ∀ rival,
    Evaluation.of? pools machine weights budget other = some (.feasible rival) →
      other ≠ combination →
        rival.score.orderKey < build.score.orderKey ∨
        rival.score = build.score ∧ combination.ordinal < other.ordinal

/-- The score of the optimum is not below that of any feasible combination. -/
theorem IsOptimum.orderKey_le {combination : Combination} {build : ChosenBuild}
    (h : pools.IsOptimum machine weights budget combination build) {other : Combination}
    (hmem : other ∈ pools.combinations) {rival : ChosenBuild}
    (hrival : Evaluation.of? pools machine weights budget other = some (.feasible rival)) :
    rival.score.orderKey ≤ build.score.orderKey := by
  by_cases hsame : other = combination
  · rw [hsame] at hrival
    rw [Evaluation.feasible_unique hrival h.feasible]
  · rcases h.best other hmem rival hrival hsame with hlt | ⟨hscore, -⟩
    · exact hlt.le
    · rw [hscore]

/-- **The best build of a search is the optimum** of the feasible combinations. -/
theorem best_eq_some_iff
    (h : pools.search? machine weights budget (fun _ => false) = some outcome)
    {build : ChosenBuild} :
    outcome.best = some build ↔
      ∃ combination, pools.IsOptimum machine weights budget combination build := by
  obtain ⟨feasible, hbest, hmem⟩ := isBestOf_best h
  constructor
  · intro hsome
    rw [hsome] at hbest
    obtain ⟨combination, hcombination, hfeasible⟩ := (hmem build).mp hbest.1
    refine ⟨combination, hcombination, hfeasible, ?_⟩
    intro other hother rival hrival hne
    rcases hbest.2 rival ((hmem rival).mpr ⟨other, hother, hrival⟩) with heq | houtranks
    · -- one build cannot come from two combinations
      have hsame : other.ordinal = combination.ordinal := by
        rw [← Evaluation.ordinal_of_feasible hrival, heq,
          Evaluation.ordinal_of_feasible hfeasible]
      exact absurd (eq_of_ordinal_eq hother hcombination hsame) hne
    · rw [← Evaluation.ordinal_of_feasible hrival, ← Evaluation.ordinal_of_feasible hfeasible]
      exact houtranks
  · rintro ⟨combination, hcombination, hfeasible, hoptimal⟩
    refine hbest.unique (y := some build) ⟨(hmem build).mpr ⟨_, hcombination, hfeasible⟩, ?_⟩
    intro rival hrival
    obtain ⟨other, hother, hrival⟩ := (hmem rival).mp hrival
    by_cases hsame : other = combination
    · rw [hsame] at hrival
      exact Or.inl (Evaluation.feasible_unique hrival hfeasible)
    · refine Or.inr ?_
      have houtranks := hoptimal other hother rival hrival hsame
      rw [← Evaluation.ordinal_of_feasible hrival,
        ← Evaluation.ordinal_of_feasible hfeasible] at houtranks
      exact houtranks

/-- There is no best build exactly when no combination is feasible. -/
theorem best_eq_none_iff
    (h : pools.search? machine weights budget (fun _ => false) = some outcome) :
    outcome.best = none ↔ ∀ combination ∈ pools.combinations, ∀ build,
      Evaluation.of? pools machine weights budget combination ≠ some (.feasible build) := by
  obtain ⟨feasible, hbest, hmem⟩ := isBestOf_best h
  constructor
  · intro hnone combination hcombination build hfeasible
    rw [hnone] at hbest
    have hbuild : build ∈ feasible := (hmem build).mpr ⟨combination, hcombination, hfeasible⟩
    have hnil : feasible = [] := hbest
    rw [hnil] at hbuild
    exact nomatch hbuild
  · intro hnever
    refine hbest.unique (y := none) (List.eq_nil_iff_forall_not_mem.mpr ?_)
    intro build hbuild
    obtain ⟨combination, hcombination, hfeasible⟩ := (hmem build).mp hbuild
    exact hnever combination hcombination build hfeasible

/-- The counts of a search are those of the combinations of each kind, and
    together with the feasible ones these are all combinations. -/
theorem counts (h : pools.search? machine weights budget (fun _ => false) = some outcome) :
    let count (kind : Evaluation → Bool) := pools.combinations.countP fun combination =>
      (Evaluation.of? pools machine weights budget combination).any kind
    outcome.overBudget = count Evaluation.isOverBudget ∧
      outcome.incompatible = count Evaluation.isIncompatible ∧
      outcome.overBudget + outcome.incompatible +
        count Evaluation.isFeasible = outcome.combinations ∧
      outcome.aborted = false := by
  intro count
  obtain ⟨evaluations, hevaluations, rfl⟩ := search?_eq_some_iff.mp h
  have hdescribes := Tally.describes_ofEvaluations (distinctOrdinals hevaluations)
  have hcount : ∀ kind, evaluations.countP kind = count kind := fun kind =>
    countP_evaluations kind hevaluations
  have habsent : Evaluation.aborted ∉ evaluations := by
    intro hmem
    obtain ⟨combination, _, hturn⟩ := (mem_evaluations hevaluations).mp hmem
    exact Evaluation.of?_ne_aborted hturn
  have hlength : evaluations.length = pools.combinations.length := by
    have hmap := congrArg List.length (evaluations?_eq_some_iff.mp hevaluations)
    rw [List.length_map, List.length_map] at hmap
    exact hmap.symm
  refine ⟨hdescribes.overBudget.trans (hcount _), hdescribes.incompatible.trans (hcount _), ?_, ?_⟩
  · have hkinds := Evaluation.countP_kinds habsent
    rw [hlength, hcount, hcount, hcount] at hkinds
    rw [← hkinds]
    dsimp only
    rw [hdescribes.overBudget, hdescribes.incompatible, hcount, hcount]
  · exact Bool.eq_false_iff.mpr fun haborted => habsent (hdescribes.aborted_iff.mp haborted)

/-! ## Searches that are called off, divided or run elsewhere -/

/-- A search that passed no combination over is the complete search. -/
theorem search?_eq_of_not_aborted
    (h : pools.search? machine weights budget calledOff = some outcome)
    (hfinished : outcome.aborted = false) :
    pools.search? machine weights budget (fun _ => false) = some outcome := by
  obtain ⟨evaluations, hevaluations, rfl⟩ := search?_eq_some_iff.mp h
  have hdescribes := Tally.describes_ofEvaluations (distinctOrdinals hevaluations)
  have habsent : Evaluation.aborted ∉ evaluations := fun hmem =>
    nomatch hfinished.symm.trans (hdescribes.aborted_iff.mpr hmem)
  -- the turn of a combination after the search is called off would be an aborted one
  have hnever : ∀ combination ∈ pools.combinations, calledOff combination.ordinal = false := by
    intro combination hmem
    refine Bool.eq_false_iff.mpr fun hoff => habsent ?_
    exact (mem_evaluations hevaluations).mpr ⟨combination, hmem, if_pos hoff⟩
  have hturns : pools.combinations.map (pools.turn? machine weights budget (fun _ => false)) =
      pools.combinations.map (pools.turn? machine weights budget calledOff) := by
    refine List.map_congr_left fun combination hmem => ?_
    rw [turn?_never, turn?, hnever combination hmem]
    rfl
  refine search?_eq_some_iff.mpr ⟨evaluations, evaluations?_eq_some_iff.mpr ?_, rfl⟩
  exact hturns.trans (evaluations?_eq_some_iff.mp hevaluations)

/-- **However a search is divided, its outcome is the same**: the tallies of
    the groups are merged to that of the search. -/
theorem search?_eq_of_division {evaluations : List Evaluation} (division : Division)
    (h : pools.evaluations? machine weights budget calledOff = some evaluations)
    (hperm : division.evaluations.Perm evaluations) :
    pools.search? machine weights budget calledOff = some {
      best := division.tally.best
      combinations := pools.combinations.length
      overBudget := division.tally.overBudget
      incompatible := division.tally.incompatible
      aborted := division.tally.aborted } := by
  rw [Division.tally_eq (distinctOrdinals h) hperm]
  exact search?_eq_some_iff.mpr ⟨evaluations, h, rfl⟩

/-- **A search ends the same way on every machine**, unless a score is a NaN. -/
theorem search?_eq_of_not_isNan (other : Machine)
    (h : pools.search? machine weights budget calledOff = some outcome)
    (hnumbers : ∀ combination ∈ pools.combinations, ∀ build,
      Evaluation.of? pools machine weights budget combination = some (.feasible build) →
        build.score.isNan = false) :
    pools.search? other weights budget calledOff = some outcome := by
  obtain ⟨evaluations, hevaluations, rfl⟩ := search?_eq_some_iff.mp h
  have hturns : pools.combinations.map (pools.turn? other weights budget calledOff) =
      pools.combinations.map (pools.turn? machine weights budget calledOff) := by
    refine List.map_congr_left fun combination hmem => ?_
    rw [turn?, turn?, Evaluation.of?_eq_of_not_isNan other (hnumbers combination hmem)]
  refine search?_eq_some_iff.mpr ⟨evaluations, evaluations?_eq_some_iff.mpr ?_, rfl⟩
  exact hturns.trans (evaluations?_eq_some_iff.mp hevaluations)

/-- **A search finds the optimum.**  If no price overflows, a search that is
    not called off ends.  It has no best build exactly when no combination is
    feasible; otherwise its best build is that of the feasible combination all
    others are below, in the total order of doubles and then by ordinal, made
    of the candidates the combination points to and the picks that follow.  In
    numbers its score is the largest.  The counts of the search are those of the
    combinations, and none is left uncounted.  Another machine finds the same
    unless a score is a NaN. -/
theorem search_finds_optimum (pools : CandidatePools) (machine : Machine) (weights : Weights)
    (budget : Decimal) (hpriced : ∀ combination ∈ pools.combinations, ∀ assembly,
      Assembly.Completes pools combination assembly → assembly.total? ≠ none) :
    ∃ outcome, pools.search? machine weights budget (fun _ => false) = some outcome ∧
      (outcome.best = none ↔ ∀ combination ∈ pools.combinations, ∀ build,
        Evaluation.of? pools machine weights budget combination ≠ some (.feasible build)) ∧
      (∀ build, outcome.best = some build ↔
        ∃ combination, pools.IsOptimum machine weights budget combination build) ∧
      (∀ combination build, pools.IsOptimum machine weights budget combination build →
        pools.Offers combination ∧ build.assembly.Completes pools combination ∧
          build.assembly.total? = some build.total ∧
          build.score = build.assembly.score machine weights ∧
          ∀ other ∈ pools.combinations, ∀ rival,
            Evaluation.of? pools machine weights budget other = some (.feasible rival) →
              rival.score.IsAtMost build.score) ∧
      outcome.combinations = pools.combinations.length ∧
      outcome.overBudget = (pools.combinations.countP fun combination =>
        (Evaluation.of? pools machine weights budget combination).any Evaluation.isOverBudget) ∧
      outcome.incompatible = (pools.combinations.countP fun combination =>
        (Evaluation.of? pools machine weights budget combination).any Evaluation.isIncompatible) ∧
      outcome.overBudget + outcome.incompatible +
        (pools.combinations.countP fun combination =>
          (Evaluation.of? pools machine weights budget combination).any Evaluation.isFeasible) =
        outcome.combinations ∧
      outcome.aborted = false ∧
      ∀ other : Machine, (∀ combination ∈ pools.combinations, ∀ build,
          Evaluation.of? pools machine weights budget combination = some (.feasible build) →
            build.score.isNan = false) →
        pools.search? other weights budget (fun _ => false) = some outcome := by
  obtain ⟨outcome, hsearch⟩ := exists_search?_iff.mpr hpriced
  obtain ⟨hoverBudget, hincompatible, htogether, haborted⟩ := counts hsearch
  have hcombinations : outcome.combinations = pools.combinations.length := by
    obtain ⟨evaluations, -, rfl⟩ := search?_eq_some_iff.mp hsearch
    rfl
  refine ⟨outcome, hsearch, best_eq_none_iff hsearch, fun build => best_eq_some_iff hsearch, ?_,
    hcombinations, hoverBudget, hincompatible, htogether, haborted,
    fun other => search?_eq_of_not_isNan other hsearch⟩
  intro combination build hoptimum
  obtain ⟨hcompletes, htotal, -, -, hscore⟩ := Evaluation.of?_eq_feasible_iff.mp hoptimum.feasible
  exact ⟨offers_of_mem hoptimum.mem, hcompletes, htotal, hscore, fun other hmem rival hrival =>
    Double.isAtMost_of_orderKey_le (hoptimum.orderKey_le hmem hrival)⟩

/-- Pools with one processor and one board, three graphics cards, two of them
    alike and the third beyond any budget, and two memory kits alike. -/
def samples : CandidatePools where
  cpus := [.sample 1 (.ofInt64 300) ⟨"AM5", 65, 600⟩ 2]
  motherboards := [.sample 10 (.ofInt64 150) ⟨"AM5", "DDR5", 6000, 2, 2, "ATX"⟩ 1]
  rams := [.sample 20 (.ofInt64 100) ⟨"DDR5", 5600, 100⟩ 1,
    .sample 21 (.ofInt64 100) ⟨"DDR5", 5600, 100⟩ 1]
  gpus := [.sample 32 (.ofInt64 9000000) ⟨300, 2, 200, 1500⟩ 100,
    .sample 30 (.ofInt64 500) ⟨300, 2, 200, 1500⟩ 3,
    .sample 31 (.ofInt64 500) ⟨300, 2, 200, 1500⟩ 3]
  psus := [.sample 40 (.ofInt64 90) ⟨750, "ATX"⟩ 1]
  chassis := [.sample 50 (.ofInt64 80) ⟨340, 160, "ATX"⟩ 1]

/-- Of four equally good combinations the first is found, behind two that cost
    too much, and on every machine. -/
theorem search_finds_optimum_first :
    (∀ combination ∈ samples.combinations, ∀ assembly,
      Assembly.Completes samples combination assembly → assembly.total? ≠ none) ∧
    ∃ outcome, samples.search? .usual .base (.ofInt64 5000) (fun _ => false) = some outcome ∧
      outcome.best.map ChosenBuild.ordinal = some 2 ∧ outcome.overBudget = 2 ∧
      ∀ other : Machine,
        samples.search? other .base (.ofInt64 5000) (fun _ => false) = some outcome := by
  have hall : samples.combinations.all (fun combination =>
      (Evaluation.of? samples .usual .base (.ofInt64 5000) combination).any fun evaluation =>
        evaluation.build?.all fun build => !build.score.isNan) = true := by
    decide +kernel
  have hpriced : ∀ combination ∈ samples.combinations, ∀ assembly,
      Assembly.Completes samples combination assembly → assembly.total? ≠ none := by
    intro combination hmem assembly hcompletes htotal
    have hsome := List.all_eq_true.mp hall combination hmem
    rw [Evaluation.of?_eq_none_iff.mpr ⟨assembly, hcompletes, htotal⟩] at hsome
    exact nomatch hsome
  have hnumbers : ∀ combination ∈ samples.combinations, ∀ build,
      Evaluation.of? samples .usual .base (.ofInt64 5000) combination = some (.feasible build) →
        build.score.isNan = false := by
    intro combination hmem build hfeasible
    have hnumber := List.all_eq_true.mp hall combination hmem
    rw [hfeasible] at hnumber
    simpa [Evaluation.build?] using hnumber
  obtain ⟨outcome, hsearch, -, -, -, -, hoverBudget, -, -, -, hmachines⟩ :=
    search_finds_optimum samples .usual .base (.ofInt64 5000) hpriced
  have hbest : (samples.search? .usual .base (.ofInt64 5000) (fun _ => false)).map
      (fun outcome => outcome.best.map ChosenBuild.ordinal) = some (some 2) := by
    decide +kernel
  rw [hsearch] at hbest
  exact ⟨hpriced, outcome, hsearch, Option.some.inj hbest, hoverBudget.trans (by decide +kernel),
    fun other => hmachines other hnumbers⟩

-- the scores of the first two combinations are infinities against each other: NaNs with the
-- sign bit, which lose to an infinite score
example :
    let pools := { samples with
      cpus := [.sample 1 (.ofInt64 300) ⟨"AM5", 65, 600⟩ 1e308]
      gpus := [.sample 30 (.ofInt64 500) ⟨300, 2, 200, 1500⟩ (-1e308),
        .sample 31 (.ofInt64 500) ⟨300, 2, 200, 1500⟩ 3] }
    ((pools.search? .usual .base (.ofInt64 5000) fun _ => false).bind SearchOutcome.best).map
      ChosenBuild.ordinal = some 2 := by
  decide +kernel

end CandidatePools

end PcAssembly
