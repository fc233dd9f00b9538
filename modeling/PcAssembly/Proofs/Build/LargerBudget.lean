import PcAssembly.Proofs.Build.Outcome
import PcAssembly.Proofs.Search.LargerBudget

/-! # What a larger budget buys

    Two requests that differ in their budgets only are searched in the same
    pools.  With the larger budget there is a result if there is one with the
    smaller, its score is at least as high, and it is the same build if the
    smaller budget pays for it. -/

namespace PcAssembly

/-- Amounts of whole numbers are compared like the numbers. -/
theorem Decimal.value_ofInt64_le {low high : Int64} (h : low ≤ high) :
    (Decimal.ofInt64 low).value ≤ (Decimal.ofInt64 high).value := by
  rw [Decimal.value_ofInt64, Decimal.value_ofInt64]
  exact_mod_cast Int64.le_iff_toInt_le.mp h

theorem CandidatePools.HasFeasible.mono {pools : CandidatePools} {machine : Machine}
    {weights : Weights} {low high : Decimal} (hle : low.value ≤ high.value)
    (h : pools.HasFeasible machine weights low) :
    pools.HasFeasible machine weights high := by
  obtain ⟨combination, hmem, build, hfeasible⟩ := h
  exact ⟨combination, hmem, build, Evaluation.feasible_of_le hle hfeasible⟩

namespace AutoBuild

open CandidatePools

variable {workshop : Workshop} {settings : EngineSettings} {request : BuildRequest}

/-- A result is finished from the optimum of the request's pools. -/
theorem exists_optimum_of_items {items : List CatalogItem} {result : BuildResult}
    (hcatalog : workshop.catalog = .ok items)
    (hrun : run workshop settings request false = .ok result) :
    ∃ combination build, (requestPools workshop settings request items).IsOptimum
        workshop.machine (Weights.ofTags request.priorities) (Decimal.ofInt64 request.budget)
          combination build ∧
      finish workshop settings request build = result := by
  obtain ⟨items', combination, build, hitems, hoptimum, hfinish⟩ := exists_optimum_of_run hrun
  cases hcatalog.symm.trans hitems
  exact ⟨combination, build, hoptimum, hfinish⟩

/-- **A larger budget buys no less.**  If there is a result with the smaller of
    two budgets, there is one with the larger, and its score is at least as
    high in the total order of doubles; if the smaller budget pays for it too,
    both results have the same selection, parts, total and score.  If no build
    is possible with the larger budget, none is with the smaller. -/
theorem run_mono_budget (workshop : Workshop) (settings : EngineSettings)
    (request : BuildRequest) {low high : Int64} (hlow : 0 < low) (hle : low ≤ high) :
    (∀ x, run workshop settings { request with budget := low } false = .ok x →
      ∃ y, run workshop settings { request with budget := high } false = .ok y ∧
        x.compositeScore.orderKey ≤ y.compositeScore.orderKey ∧
        (y.total.le (.ofInt64 low) = true →
          x.selection = y.selection ∧ x.parts = y.parts ∧ x.total = y.total ∧
            x.compositeScore = y.compositeScore)) ∧
    ∀ budget reason,
      run workshop settings { request with budget := high } false =
        .error (.notPossible budget reason) →
      ∃ budget reason, run workshop settings { request with budget := low } false =
        .error (.notPossible budget reason) := by
  have hpositive : 0 < low.toInt := Int64.lt_iff_toInt_lt.mp hlow
  have hpositive' : 0 < high.toInt := hpositive.trans_le (Int64.le_iff_toInt_le.mp hle)
  have hvalue := Decimal.value_ofInt64_le hle
  constructor
  · intro x hx
    -- both requests have the same pools
    have hpriced := priced_of_run hx (fun h => nomatch h)
    have hpriced' : PricedRequest workshop settings { request with budget := high } :=
      fun _ => hpriced hpositive
    obtain ⟨-, items, hcatalog, hfeasible⟩ := (exists_run_eq_ok_iff hpriced).mp ⟨x, hx⟩
    obtain ⟨y, hy⟩ := (exists_run_eq_ok_iff hpriced').mpr
      ⟨hpositive', items, hcatalog, hfeasible.mono hvalue⟩
    obtain ⟨c, xBuild, hxOptimum, rfl⟩ := exists_optimum_of_items hcatalog hx
    obtain ⟨d, yBuild, hyOptimum, rfl⟩ := exists_optimum_of_items hcatalog hy
    refine ⟨_, hy, hxOptimum.score_le hvalue hyOptimum, fun htotal => ?_⟩
    have hyLow := hyOptimum.of_total_le hvalue (Decimal.le_iff.mp htotal)
    obtain ⟨-, rfl⟩ := hxOptimum.unique hyLow
    exact ⟨rfl, rfl, rfl, rfl⟩
  · intro budget reason hhigh
    have hpriced' := priced_of_run hhigh (fun h => nomatch h)
    have hpriced : PricedRequest workshop settings { request with budget := low } :=
      fun _ => hpriced' hpositive'
    cases (run_eq_iff_settles hpriced').mp hhigh with
    | noCatalog _ hcatalog =>
        exact ⟨budget, reason, run_eq_of_settles hpriced (.noCatalog hpositive hcatalog)⟩
    | emptyPool _ hcatalog hempty =>
        exact ⟨_, _, run_eq_of_settles hpriced (.emptyPool hpositive hcatalog hempty)⟩
    | allRejected _ hcatalog hpools hfilled hnone =>
        subst hpools
        exact ⟨_, _, run_eq_of_settles hpriced
          (.allRejected hpositive hcatalog rfl hfilled fun h => hnone (h.mono hvalue))⟩

/-- The sample costs eight hundred, so a thousand buys the same. -/
theorem run_mono_budget_sample :
    (0 : Int64) < 800 ∧ (800 : Int64) ≤ 1000 ∧
    ∃ x y, run sampleWorkshop {} { budget := 800 } false = .ok x ∧
      run sampleWorkshop {} { budget := 1000 } false = .ok y ∧
      x.compositeScore.orderKey ≤ y.compositeScore.orderKey ∧
      x.parts = y.parts ∧ x.total = y.total := by
  have hlow : (0 : Int64) < 800 := by decide
  have hle : (800 : Int64) ≤ 1000 := by decide
  have hbuilt : (run sampleWorkshop {} { budget := 800 } false).toOption.any
      (fun _ => true) = true := by
    decide +kernel
  have hpaid : (run sampleWorkshop {} { budget := 1000 } false).toOption.any
      (fun y => y.total.le (.ofInt64 800)) = true := by
    decide +kernel
  obtain ⟨x, hx, -⟩ := exists_result_of_any hbuilt
  obtain ⟨y, hy, htotal⟩ := exists_result_of_any hpaid
  obtain ⟨y', hy', hscore, hsame⟩ :=
    (run_mono_budget sampleWorkshop {} { budget := 0 } hlow hle).1 x hx
  cases hy.symm.trans hy'
  obtain ⟨-, hparts, htotals, -⟩ := hsame htotal
  exact ⟨hlow, hle, x, y, hx, hy, hscore, hparts, htotals⟩

end AutoBuild

end PcAssembly
