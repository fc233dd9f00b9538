import PcAssembly.Proofs.Build.OtherPlatforms
import PcAssembly.Proofs.Catalog.Extraction

/-! # Catalogs in another order

    The order of a catalog decides which of two candidates with the same score
    stands first in their pool, and nothing else: the ranking of candidates
    whose scores are all different is the same in whatever order they come in,
    and once the pools are drawn nobody looks at the catalog again.  So a
    request has the same outcome for all orders of a catalog in which no
    category has two candidates with the same score. -/

namespace PcAssembly

namespace Catalog

/-- No two items of the catalog are candidates of one category with the same
    score. -/
def ScoresApart (lookup : PartLookup) (items : List CatalogItem) : Prop :=
  ∀ category, (items.filterMap (CatalogItem.candidate? lookup category)).Pairwise fun x y =>
    x.score.orderKey ≠ y.score.orderKey

/-- There are eight categories to look at. -/
instance (lookup : PartLookup) (items : List CatalogItem) :
    Decidable (ScoresApart lookup items) :=
  decidable_of_iff (∀ category ∈ Category.all,
      (items.filterMap (CatalogItem.candidate? lookup category)).Pairwise fun x y =>
        x.score.orderKey ≠ y.score.orderKey)
    ⟨fun h category => h category (Category.mem_all category), fun h category _ => h category⟩

variable {lookup : PartLookup} {items sold : List CatalogItem}

/-- The pools of a catalog whose scores are apart do not depend on its order. -/
theorem pools_eq_of_perm (hperm : sold.Perm items) (hapart : ScoresApart lookup items)
    (beamWidth : Nat) : pools lookup beamWidth sold = pools lookup beamWidth items := by
  rw [pools_eq_ofPools, pools_eq_ofPools]
  congr 1
  funext category
  rw [Candidate.ranked, Candidate.ranked,
    Candidate.mergeSort_eq_of_perm (hperm.filterMap _) (hapart category)]

end Catalog

namespace AutoBuild

/-- **The order of a catalog does not matter** if in no category two candidates
    have the same score: the same items in another order lead to the same
    result in every field, or to the same error with the same counts. -/
theorem run_of_perm (workshop : Workshop) (settings : EngineSettings) (request : BuildRequest)
    (cancelled : Bool) {items sold : List CatalogItem} (hperm : sold.Perm items)
    (hapart : Catalog.ScoresApart workshop.lookup items) :
    run (workshop.selling sold) settings request cancelled =
      run (workshop.selling items) settings request cancelled := by
  refine run_selling_congr ?_ cancelled
  rw [requestPools, requestPools, Catalog.pools_eq_of_perm hperm hapart]

/-- The sample with a second processor for its board, which is rated higher. -/
def upgradedWorkshop : Workshop :=
  { sampleWorkshop with
    lookup := fun category id =>
      if category = .cpu ∧ id = 2 then some (.cpu ⟨"AM5", 105, 900⟩)
      else sampleWorkshop.lookup category id }

/-- It is the same build whether the second processor is the first item for
    sale or the last. -/
theorem run_of_perm_upgraded :
    (sampleItems ++ [secondProcessor]).Perm (secondProcessor :: sampleItems) ∧
    Catalog.ScoresApart upgradedWorkshop.lookup (secondProcessor :: sampleItems) ∧
    ∃ result,
      run (upgradedWorkshop.selling (secondProcessor :: sampleItems)) {} { budget := 800 } false =
        .ok result ∧
      run (upgradedWorkshop.selling (sampleItems ++ [secondProcessor])) {} { budget := 800 } false =
        .ok result := by
  have hperm : (sampleItems ++ [secondProcessor]).Perm (secondProcessor :: sampleItems) :=
    List.perm_append_singleton secondProcessor sampleItems
  have hapart : Catalog.ScoresApart upgradedWorkshop.lookup (secondProcessor :: sampleItems) := by
    decide +kernel
  have hbuilt : (run (upgradedWorkshop.selling (secondProcessor :: sampleItems)) {}
      { budget := 800 } false).toOption.any (fun _ => true) = true := by
    rw [run_of_catalog (by decide) rfl, requestPools, Catalog.pools_eq_insertionSort]
    decide +kernel
  obtain ⟨result, hresult, -⟩ := exists_result_of_any hbuilt
  exact ⟨hperm, hapart, result, hresult,
    (run_of_perm upgradedWorkshop {} { budget := 800 } false hperm hapart).trans hresult⟩

end AutoBuild

end PcAssembly
