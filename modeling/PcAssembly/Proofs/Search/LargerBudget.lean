import PcAssembly.Proofs.Decimal.Value
import PcAssembly.Proofs.Search.Optimum

/-! # What a larger budget changes

    Nothing about a build depends on the budget: it is completed, priced and
    scored without it, and then compared with it.  So the feasible builds of a
    smaller budget are feasible under a larger one, and those of the larger one
    that the smaller one pays for are feasible under it.  The optimum can only
    get better, and it stays the same as long as the smaller budget pays for
    it. -/

namespace PcAssembly

variable {pools : CandidatePools} {machine : Machine} {weights : Weights} {low high : Decimal}

namespace Evaluation

variable {combination : Combination} {build : ChosenBuild}

/-- A feasible build is feasible under every budget that pays for it. -/
theorem feasible_of_total_le
    (h : of? pools machine weights low combination = some (.feasible build))
    (htotal : build.total.value ≤ high.value) :
    of? pools machine weights high combination = some (.feasible build) := by
  obtain ⟨hcompletes, hprice, -, hfits, hscore⟩ := of?_eq_feasible_iff.mp h
  exact of?_eq_feasible_iff.mpr
    ⟨hcompletes, hprice, Decimal.lt_eq_false_iff.mpr htotal, hfits, hscore⟩

/-- A budget pays for its feasible builds. -/
theorem total_le_of_feasible
    (h : of? pools machine weights low combination = some (.feasible build)) :
    build.total.value ≤ low.value :=
  Decimal.lt_eq_false_iff.mp (of?_eq_feasible_iff.mp h).2.2.1

theorem feasible_of_le (hle : low.value ≤ high.value)
    (h : of? pools machine weights low combination = some (.feasible build)) :
    of? pools machine weights high combination = some (.feasible build) :=
  feasible_of_total_le h ((total_le_of_feasible h).trans hle)

end Evaluation

namespace CandidatePools.IsOptimum

variable {budget : Decimal} {c d : Combination} {x y : ChosenBuild}

/-- The optimum outranks every other feasible build. -/
theorem outranks (hx : pools.IsOptimum machine weights budget c x) (hother : d ∈ pools.combinations)
    (hrival : Evaluation.of? pools machine weights budget d = some (.feasible y)) (hne : d ≠ c) :
    x.Outranks y := by
  have hbest := hx.best d hother y hrival hne
  rw [← Evaluation.ordinal_of_feasible hx.feasible,
    ← Evaluation.ordinal_of_feasible hrival] at hbest
  exact hbest

/-- There is one optimum at most. -/
theorem unique (hx : pools.IsOptimum machine weights budget c x)
    (hy : pools.IsOptimum machine weights budget d y) : c = d ∧ x = y := by
  have hsame : c = d := by
    by_contra hne
    -- each would be better than the other
    have hxy : x.Outranks y := hx.outranks hy.mem hy.feasible (Ne.symm hne)
    exact hxy.asymm (hy.outranks hx.mem hx.feasible hne)
  subst hsame
  exact ⟨rfl, Evaluation.feasible_unique hx.feasible hy.feasible⟩

/-- The optimum of a larger budget is at least as good. -/
theorem score_le (hle : low.value ≤ high.value) (hx : pools.IsOptimum machine weights low c x)
    (hy : pools.IsOptimum machine weights high d y) :
    x.score.orderKey ≤ y.score.orderKey :=
  hy.orderKey_le hx.mem (Evaluation.feasible_of_le hle hx.feasible)

/-- The optimum of a larger budget is that of a smaller one which pays for it. -/
theorem of_total_le (hle : low.value ≤ high.value) (hy : pools.IsOptimum machine weights high d y)
    (htotal : y.total.value ≤ low.value) : pools.IsOptimum machine weights low d y where
  mem := hy.mem
  feasible := Evaluation.feasible_of_total_le hy.feasible htotal
  best other hother rival hrival hne :=
    hy.best other hother rival (Evaluation.feasible_of_le hle hrival) hne

end CandidatePools.IsOptimum

end PcAssembly
