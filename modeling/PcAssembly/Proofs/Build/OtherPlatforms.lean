import PcAssembly.Proofs.Build.LargerBudget
import PcAssembly.Proofs.Catalog.Omission
import PcAssembly.Proofs.Search.MoreProcessors

/-! # Processors of other platforms

    A request for one platform excludes the processors of the others, but only
    after the beam has been drawn: excluded processors with good scores take
    places in it.  Leaving them out of the catalog may therefore bring in more
    processors of the platform, behind those that were in the beam, and nothing
    else.  If none comes in, the outcome is the same; if some do, a result can
    only change to one with a better score. -/

namespace PcAssembly

namespace CandidatePools

variable {pools more : CandidatePools} {added : List (Candidate Cpu)}

/-- Other processors are no other parts. -/
theorem pool_with_cpus (pools : CandidatePools) (cpus : List (Candidate Cpu))
    {category : Category} (hcategory : category ≠ .cpu) :
    CandidatePools.pool { pools with cpus } category = pools.pool category := by
  cases category with
  | cpu => exact absurd rfl hcategory
  | _ => rfl

/-- Pools that differ in processors only, which are longer, are the same with
    more processors. -/
theorem eq_withProcessors (hcpus : pools.cpus ++ added = more.cpus)
    (hothers : ∀ category, category ≠ .cpu → more.pool category = pools.pool category) :
    more = pools.withProcessors added := by
  obtain ⟨cpus, motherboards, rams, gpus, psus, chassis, coolers, storage⟩ := more
  refine CandidatePools.mk.injEq .. ▸ ⟨hcpus.symm, hothers .motherboard ?_, hothers .ram ?_,
    hothers .gpu ?_, hothers .psu ?_, hothers .chassis ?_, hothers .cooler ?_,
    hothers .storage ?_⟩ <;> decide

theorem withProcessors_nil : pools.withProcessors [] = pools :=
  congrArg (fun cpus => { pools with cpus }) (List.append_nil pools.cpus)

/-- The combinations there were overflow as before. -/
theorem Priced.of_withProcessors (h : (pools.withProcessors added).Priced) : pools.Priced :=
  fun combination hmem assembly hcompletes =>
    h combination (combinations_subset pools added hmem) assembly
      ⟨hcompletes.combination, hcompletes.psu, hcompletes.chassis, hcompletes.cooler,
        hcompletes.storage⟩

/-- More processors leave the pools empty that were, but for their own. -/
theorem IsFirstEmpty.withProcessors {category : Category} (hcategory : category ≠ .cpu)
    (h : pools.IsFirstEmpty category) : (pools.withProcessors added).IsFirstEmpty category := by
  obtain ⟨hempty, earlier, later, hslots, hfilled⟩ := h
  refine ⟨(pool_with_cpus pools _ hcategory).trans hempty, earlier, later, hslots, ?_⟩
  intro other hother
  by_cases hcpu : other = .cpu
  · subst hcpu
    exact List.append_ne_nil_of_left_ne_nil (hfilled .cpu hother) added
  · rw [CandidatePools.withProcessors, pool_with_cpus pools _ hcpu]
    exact hfilled other hother

end CandidatePools

/-- The workshop with these items for sale. -/
def Workshop.selling (workshop : Workshop) (items : List CatalogItem) : Workshop :=
  { workshop with catalog := .ok items }

namespace AutoBuild

open CandidatePools

variable {workshop : Workshop} {settings : EngineSettings} {request : BuildRequest}
  {items rest : List CatalogItem}

/-- The processors that a request excludes. -/
def Excluded (workshop : Workshop) (request : BuildRequest) : CatalogItem → Prop :=
  CatalogItem.IsExcluded workshop.lookup
    (if request.platform.any fun word => Text.lowered (Text.trimmed word) == "intel"
      then "LGA" else "AM")

theorem omits_of_platform (h : Omits (Excluded workshop request) items rest) :
    Omits (CatalogItem.IsExcluded workshop.lookup (Platform.ofFilter request.platform).socketStart)
      items rest := by
  rw [socketStart_ofFilter]
  exact h

/-- Leaving out excluded processors brings in processors at the most. -/
theorem exists_requestPools_eq (settings : EngineSettings)
    (h : Omits (Excluded workshop request) items rest) :
    ∃ added, requestPools workshop settings request rest =
      (requestPools workshop settings request items).withProcessors added := by
  have homits := omits_of_platform h
  obtain ⟨added, hadded⟩ := Catalog.cpus_prefix_of_omits settings.beamWidth.toNat homits
  refine ⟨added, eq_withProcessors hadded fun category hcategory => ?_⟩
  exact (pool_with_cpus _ _ hcategory).trans
    ((Catalog.pool_eq_of_omits settings.beamWidth.toNat hcategory homits).trans
      (pool_with_cpus _ _ hcategory).symm)

/-- The pools of a request depend on what is looked up, and not on what is for
    sale elsewhere. -/
theorem requestPools_selling (workshop : Workshop) (sold : List CatalogItem) :
    requestPools (workshop.selling sold) settings request items =
      requestPools workshop settings request items := rfl

/-- A run depends on the catalog only through the pools of the request. -/
theorem run_selling_congr
    (h : requestPools workshop settings request rest = requestPools workshop settings request items)
    (cancelled : Bool) :
    run (workshop.selling rest) settings request cancelled =
      run (workshop.selling items) settings request cancelled := by
  have hchosen : choose (workshop.selling rest) settings request =
      choose (workshop.selling items) settings request := by
    show (if request.budget.toInt ≤ 0 then _ else
      chooseFrom (requestPools workshop settings request rest) _ _ _) = _
    rw [h]
    rfl
  rw [run, run, hchosen]
  rfl

/-- If as many processors are in the pool as before, they are the same. -/
theorem requestPools_eq_of_length_eq (h : Omits (Excluded workshop request) items rest)
    (hlength : (requestPools workshop settings request rest).cpus.length =
      (requestPools workshop settings request items).cpus.length) :
    requestPools workshop settings request rest = requestPools workshop settings request items := by
  obtain ⟨added, hadded⟩ := exists_requestPools_eq settings h
  rw [hadded, withProcessors, List.length_append, Nat.add_eq_left] at hlength
  rw [hadded, List.length_eq_zero_iff.mp hlength, withProcessors_nil]

/-- Only processors of the platform that were for sale before come in. -/
theorem cpus_subperm_of_omits (h : Omits (Excluded workshop request) items rest) :
    (requestPools workshop settings request rest).cpus.Subperm
      (Catalog.processors workshop.lookup (.ofFilter request.platform) items) := by
  rw [← Catalog.processors_eq_of_omits (omits_of_platform h)]
  exact Catalog.cpus_subperm_processors settings.beamWidth.toNat

/-- If all processors of the platform are in the pool, no more come in. -/
theorem length_cpus_eq_of_complete (h : Omits (Excluded workshop request) items rest)
    (hcomplete : (Catalog.processors workshop.lookup (.ofFilter request.platform) items).length ≤
      (requestPools workshop settings request items).cpus.length) :
    (requestPools workshop settings request rest).cpus.length =
      (requestPools workshop settings request items).cpus.length := by
  have homits := omits_of_platform h
  refine Nat.le_antisymm ?_
    (Catalog.cpus_prefix_of_omits settings.beamWidth.toNat homits).length_le
  exact (cpus_subperm_of_omits h).length_le.trans hcomplete

/-- An error that is about neither the processors nor the combinations stays
    the same. -/
theorem run_eq_error_of_omits (h : Omits (Excluded workshop request) items rest)
    {error : BuildError} (hrun : run (workshop.selling items) settings request false = .error error)
    (hpool : ∀ budget, error ≠ .notPossible budget (.emptyPool .cpu))
    (hrejected : ∀ budget combinations overBudget incompatible,
      error ≠ .notPossible budget (.allRejected combinations overBudget incompatible)) :
    run (workshop.selling rest) settings request false = .error error := by
  obtain ⟨added, hadded⟩ := exists_requestPools_eq settings h
  by_cases hpriced : PricedRequest (workshop.selling items) settings request
  · cases (run_eq_iff_settles hpriced).mp hrun with
    | invalidBudget hbudget =>
        exact run_eq_of_settles (fun hpositive => absurd hbudget (Int.not_le.mpr hpositive))
          (.invalidBudget hbudget)
    | noCatalog _ hcatalog => exact nomatch hcatalog
    | @emptyPool items' category hbudget hcatalog hempty =>
        cases hcatalog
        have hcategory : category ≠ .cpu := by
          rintro rfl
          exact hpool _ rfl
        have hstays : (requestPools (workshop.selling rest) settings request rest).IsFirstEmpty
            category := by
          rw [requestPools_selling, hadded]
          exact hempty.withProcessors hcategory
        rw [run_of_catalog hbudget rfl, chooseFrom, emptySlot?_eq_some_iff.mpr hstays]
        rfl
    | allRejected => exact absurd rfl (hrejected _ _ _ _)
  · -- a price that overflows still does with more processors
    obtain ⟨hbudget, hoverflow⟩ := Classical.not_imp.mp hpriced
    simp only [not_forall] at hoverflow
    obtain ⟨items', hcatalog, hoverflow⟩ := hoverflow
    cases hcatalog
    have hstays : ¬ (requestPools (workshop.selling rest) settings request rest).Priced := by
      rw [requestPools_selling, hadded]
      exact fun hpriced => hoverflow hpriced.of_withProcessors
    rw [← hrun, run_of_not_priced hbudget rfl hoverflow]
    exact run_of_not_priced hbudget rfl hstays

/-- There are results for positive budgets only. -/
theorem budget_pos_of_run {result : BuildResult}
    (hrun : run workshop settings request false = .ok result) : 0 < request.budget.toInt := by
  obtain ⟨-, build, hchoose, -⟩ := run_eq_ok_iff.mp hrun
  exact (choose_eq_ok_iff.mp hchoose).1

/-- A result stays, or changes to one with a better score, if no price
    overflows. -/
theorem exists_result_of_omits (h : Omits (Excluded workshop request) items rest)
    {result : BuildResult} (hrun : run (workshop.selling items) settings request false = .ok result)
    (hpriced : (requestPools workshop settings request rest).Priced) :
    ∃ other, run (workshop.selling rest) settings request false = .ok other ∧
      (other = result ∨
        result.compositeScore.orderKey < other.compositeScore.orderKey) := by
  obtain ⟨added, hadded⟩ := exists_requestPools_eq settings h
  have hbudget := budget_pos_of_run hrun
  obtain ⟨c, x, hx, rfl⟩ := exists_optimum_of_items rfl hrun
  have hafter : PricedRequest (workshop.selling rest) settings request := by
    rintro - items' ⟨⟩
    exact hpriced
  have hfeasible : (requestPools (workshop.selling rest) settings request rest).HasFeasible
      workshop.machine (Weights.ofTags request.priorities) (Decimal.ofInt64 request.budget) := by
    rw [requestPools_selling, hadded]
    exact ⟨c, combinations_subset _ _ hx.mem, x, hx.feasible⟩
  obtain ⟨other, hother⟩ := (exists_run_eq_ok_iff hafter).mpr ⟨hbudget, rest, rfl, hfeasible⟩
  obtain ⟨d, y, hy, rfl⟩ := exists_optimum_of_items rfl hother
  refine ⟨_, hother, ?_⟩
  have hy : ((requestPools workshop settings request items).withProcessors added).IsOptimum
      workshop.machine (Weights.ofTags request.priorities) (Decimal.ofInt64 request.budget) d y :=
        hadded ▸ hy
  rcases hx.eq_or_lt_of_withProcessors hy with rfl | hlt
  · exact Or.inl rfl
  · exact Or.inr hlt

/-- **What excluded processors can change.**  Leave any of them out of a
    catalog: the other pools of the request stay the same, and the processors
    that are in its pool stay there in their order, with others of the platform
    that are for sale at most behind them.  The outcome is the same if none
    comes in, and none does if the beam has cut off no processor of the
    platform.  In any case an error other than that there is no processor or
    that all combinations are rejected stays the same, and a result stays the
    same or changes to one with a better score, unless a price overflows. -/
theorem run_of_omits (workshop : Workshop) (settings : EngineSettings) (request : BuildRequest)
    (cancelled : Bool) (h : Omits (Excluded workshop request) items rest) :
    let before := requestPools workshop settings request items
    let after := requestPools workshop settings request rest
    let outcome (sold : List CatalogItem) := run (workshop.selling sold) settings request cancelled
    (∀ category, category ≠ .cpu → after.pool category = before.pool category) ∧
    before.cpus <+: after.cpus ∧
    after.cpus.Subperm
      (Catalog.processors workshop.lookup (.ofFilter request.platform) items) ∧
    (after.cpus.length = before.cpus.length → outcome rest = outcome items) ∧
    ((Catalog.processors workshop.lookup (.ofFilter request.platform) items).length ≤
      before.cpus.length → outcome rest = outcome items) ∧
    (∀ error, outcome items = .error error →
      (∀ budget, error ≠ .notPossible budget (.emptyPool .cpu)) →
      (∀ budget combinations overBudget incompatible,
        error ≠ .notPossible budget (.allRejected combinations overBudget incompatible)) →
      outcome rest = .error error) ∧
    ∀ result, outcome items = .ok result →
      outcome rest = .error (.internal "a price is too large") ∨
      ∃ other, outcome rest = .ok other ∧
        (other = result ∨
          result.compositeScore.orderKey < other.compositeScore.orderKey) := by
  intro before after outcome
  have hadded : ∃ added, after = before.withProcessors added := exists_requestPools_eq settings h
  obtain ⟨added, hadded⟩ := hadded
  refine ⟨?_, ?_, cpus_subperm_of_omits h, ?_, ?_, ?_, ?_⟩
  · intro category hcategory
    rw [hadded]
    exact pool_with_cpus before _ hcategory
  · rw [hadded]
    exact List.prefix_append before.cpus added
  · intro hlength
    exact run_selling_congr (requestPools_eq_of_length_eq h hlength) cancelled
  · intro hcomplete
    exact run_selling_congr
      (requestPools_eq_of_length_eq h (length_cpus_eq_of_complete h hcomplete)) cancelled
  · intro error hrun hpool hrejected
    cases cancelled with
    | true => exact hrun
    | false => exact run_eq_error_of_omits h hrun hpool hrejected
  · intro result hrun
    cases cancelled with
    | true => exact nomatch hrun
    | false =>
        by_cases hpriced : after.Priced
        · exact Or.inr (exists_result_of_omits h hrun hpriced)
        · exact Or.inl (run_of_not_priced (budget_pos_of_run hrun) rfl hpriced)

/-- What the sample has for sale. -/
def sampleItems : List CatalogItem := sampleWorkshop.catalog.toOption.getD []

/-- A processor for sale that has the id two. -/
def secondProcessor : CatalogItem where
  productId := 8
  price := .ofInt64 100
  stock := 1
  componentTag := "\x7b\"type\": \"cpu\", \"id\": 2\x7d"

/-- The sample with a second processor, which is of the other platform and is
    rated higher. -/
def crowdedWorkshop : Workshop where
  machine := .usual
  lookup category id :=
    if category = .cpu ∧ id = 2 then some (.cpu ⟨"LGA1700", 125, 900⟩)
    else sampleWorkshop.lookup category id
  catalog := .ok (secondProcessor :: sampleItems)
  prices := .unavailable
  today := .first

/-- A request for the platform of the sample excludes the second processor. -/
theorem omits_secondProcessor :
    Omits (Excluded crowdedWorkshop { budget := 800 }) (secondProcessor :: sampleItems)
      sampleItems := by
  refine .leave secondProcessor ⟨2, ⟨"LGA1700", 125, 900⟩, ?_, rfl, ?_⟩ (.refl sampleItems)
  · decide +kernel
  · decide

/-- In a beam of eight there is room for both processors. -/
theorem run_of_omits_roomy :
    Omits (Excluded crowdedWorkshop { budget := 800 }) (secondProcessor :: sampleItems)
      sampleItems ∧
    ∃ result, run (crowdedWorkshop.selling (secondProcessor :: sampleItems)) {}
        { budget := 800 } false = .ok result ∧
      run (crowdedWorkshop.selling sampleItems) {} { budget := 800 } false = .ok result := by
  obtain ⟨-, -, -, -, hsame, -⟩ :=
    run_of_omits crowdedWorkshop {} { budget := 800 } false omits_secondProcessor
  have hroom : (Catalog.processors crowdedWorkshop.lookup (.ofFilter none)
      (secondProcessor :: sampleItems)).length ≤
        (requestPools crowdedWorkshop {} { budget := 800 }
          (secondProcessor :: sampleItems)).cpus.length := by
    rw [requestPools, Catalog.pools_eq_insertionSort]
    decide +kernel
  have hbuilt : (run (crowdedWorkshop.selling sampleItems) {} { budget := 800 } false).toOption.any
      (fun _ => true) = true := by
    decide +kernel
  obtain ⟨result, hresult, -⟩ := exists_result_of_any hbuilt
  exact ⟨omits_secondProcessor, result, (hsame hroom).symm.trans hresult, hresult⟩

/-- A beam of one holds only the better processor, which the request excludes;
    so there is no build with it for sale, and one without it. -/
theorem run_ne_of_omits_crowded :
    Omits (Excluded crowdedWorkshop { budget := 800 }) (secondProcessor :: sampleItems)
      sampleItems ∧
    run (crowdedWorkshop.selling (secondProcessor :: sampleItems)) { beamWidth := 1 }
      { budget := 800 } false = .error (.notPossible (.ofInt64 800) (.emptyPool .cpu)) ∧
    ∃ result, run (crowdedWorkshop.selling sampleItems) { beamWidth := 1 }
      { budget := 800 } false = .ok result := by
  have hempty : emptySlot? (requestPools crowdedWorkshop { beamWidth := 1 } { budget := 800 }
      (secondProcessor :: sampleItems)) = some .cpu := by
    rw [requestPools, Catalog.pools_eq_insertionSort]
    decide +kernel
  have hbuilt : (run (crowdedWorkshop.selling sampleItems) { beamWidth := 1 }
      { budget := 800 } false).toOption.any (fun _ => true) = true := by
    decide +kernel
  obtain ⟨result, hresult, -⟩ := exists_result_of_any hbuilt
  refine ⟨omits_secondProcessor, ?_, result, hresult⟩
  rw [run_of_catalog (by decide) rfl, requestPools_selling, chooseFrom, hempty]
  rfl

end AutoBuild

end PcAssembly
