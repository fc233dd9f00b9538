import PcAssembly.Proofs.Search.LargerBudget

/-! # What more processors change

    Processors that are listed behind the others of their pool add combinations
    behind the others.  The combinations there were keep their ordinals and what
    they amount to, so the optimum can only change to one with a better score:
    a new combination that is as good comes later and loses the tie. -/

namespace PcAssembly

theorem Placed.all_isPrefix_append {α : Type} (pool added : List (Candidate α)) :
    all pool <+: all (pool ++ added) := by
  rw [all, all, List.zipIdx_append]
  exact (List.prefix_append _ _).map _

namespace CandidatePools

/-- The pools with more processors behind the others. -/
def withProcessors (pools : CandidatePools) (added : List (Candidate Cpu)) : CandidatePools :=
  { pools with cpus := pools.cpus ++ added }

variable {pools : CandidatePools} {added : List (Candidate Cpu)} {machine : Machine}
  {weights : Weights} {budget : Decimal}

/-- The combinations there were come first. -/
theorem combinations_isPrefix (pools : CandidatePools) (added : List (Candidate Cpu)) :
    pools.combinations <+: (pools.withProcessors added).combinations := by
  have hpairs : pools.socketPairs <+: (pools.withProcessors added).socketPairs :=
    (Placed.all_isPrefix_append pools.cpus added).flatMap _
  obtain ⟨pairs, hpairs⟩ := hpairs
  rw [combinations, combinations, ← hpairs, List.flatMap_append, List.zipIdx_append]
  exact (List.prefix_append _ _).map _

theorem combinations_subset (pools : CandidatePools) (added : List (Candidate Cpu)) :
    pools.combinations ⊆ (pools.withProcessors added).combinations :=
  (combinations_isPrefix pools added).subset

/-- What a combination amounts to does not depend on the other processors. -/
theorem of?_withProcessors (combination : Combination) :
    Evaluation.of? (pools.withProcessors added) machine weights budget combination =
      Evaluation.of? pools machine weights budget combination := rfl

/-- A combination that was not there has a larger ordinal than all that were. -/
theorem ordinal_lt_of_not_mem {old new : Combination} (hold : old ∈ pools.combinations)
    (hnew : new ∈ (pools.withProcessors added).combinations) (hnot : new ∉ pools.combinations) :
    old.ordinal < new.ordinal := by
  have hrange : old.ordinal ∈ List.range pools.combinations.length :=
    map_ordinal_combinations pools ▸ List.mem_map_of_mem hold
  refine Nat.lt_of_lt_of_le (List.mem_range.mp hrange) (Nat.le_of_not_lt fun hlt => hnot ?_)
  -- otherwise a combination that was there has the ordinal of the new one
  have hordinal : new.ordinal ∈ pools.combinations.map Combination.ordinal :=
    map_ordinal_combinations pools ▸ List.mem_range.mpr hlt
  obtain ⟨same, hsame, heq⟩ := List.mem_map.mp hordinal
  rw [← eq_of_ordinal_eq (combinations_subset pools added hsame) hnew heq]
  exact hsame

namespace IsOptimum

variable {c d : Combination} {x y : ChosenBuild}

/-- The optimum of more combinations is that of those it is among. -/
theorem of_withProcessors
    (hy : (pools.withProcessors added).IsOptimum machine weights budget d y)
    (hmem : d ∈ pools.combinations) : pools.IsOptimum machine weights budget d y where
  mem := hmem
  feasible := (of?_withProcessors d).symm.trans hy.feasible
  best other hother rival hrival hne :=
    hy.best other (combinations_subset pools added hother) rival
      ((of?_withProcessors other).trans hrival) hne

/-- **More processors change the optimum only to a better one.** -/
theorem eq_or_lt_of_withProcessors (hx : pools.IsOptimum machine weights budget c x)
    (hy : (pools.withProcessors added).IsOptimum machine weights budget d y) :
    y = x ∨ x.score.orderKey < y.score.orderKey := by
  by_cases hmem : d ∈ pools.combinations
  · exact Or.inl ((hy.of_withProcessors hmem).unique hx).2
  · have hne : c ≠ d := fun hsame => hmem (hsame ▸ hx.mem)
    rcases hy.best c (combinations_subset pools added hx.mem) x
        ((of?_withProcessors c).trans hx.feasible) hne with hlt | ⟨-, hordinal⟩
    · exact Or.inr hlt
    · exact absurd (ordinal_lt_of_not_mem hx.mem hy.mem hmem) (Nat.lt_asymm hordinal)

end IsOptimum

end CandidatePools

end PcAssembly
