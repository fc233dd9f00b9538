import PcAssembly.Proofs.Build.Parts
import PcAssembly.Proofs.Build.Soundness

/-! # Results speak of one build

    The ids, the products, the price and the score of a result are computed
    apart from each other, and neither ids nor product numbers tell the items
    of a catalog apart.  All the same they belong together: there is one item
    for every filled slot, and the result has the id that the item's tag
    states, the item's product under the name of the slot, the sum of the
    items' prices and the weighted sum of their scores. -/

namespace PcAssembly.AutoBuild

variable {workshop : Workshop} {settings : EngineSettings} {request : BuildRequest}

/-- **A result is coherent.**  There are items of the catalog, one for each of
    the six slots that have to be filled, perhaps one for a cooler, and the
    first two of the drives that were extracted, or all if there are fewer.
    The tag of each leads to the category of its slot and to the id that the
    selection has there; the parts are the products of these items by the
    names of their slots; the total is the sum of their prices, added in the
    order that is written out; and the composite score weighs their scores by
    the weights of the request's priorities. -/
theorem run_coherent {result : BuildResult}
    (h : run workshop settings request false = .ok result) :
    ∃ items assembly, workshop.catalog = .ok items ∧
      Assembly.StemsFrom workshop.lookup items assembly ∧
      assembly.storage =
        (Catalog.pools workshop.lookup settings.beamWidth.toNat items).storage.take 2 ∧
      result.selection = {
        cpu := some assembly.cpu.componentId
        motherboard := some assembly.motherboard.componentId
        ram := some assembly.ram.componentId
        gpu := some assembly.gpu.componentId
        psu := some assembly.psu.componentId
        chassis := some assembly.chassis.componentId
        cooler := assembly.cooler.map Candidate.componentId
        storage := assembly.storage.map Candidate.componentId } ∧
      result.selection.storage.length =
        min 2 (Catalog.pools workshop.lookup settings.beamWidth.toNat items).storage.length ∧
      result.parts.Perm (
        [("cpu", assembly.cpu.item.productId),
          ("motherboard", assembly.motherboard.item.productId),
          ("ram", assembly.ram.item.productId), ("gpu", assembly.gpu.item.productId),
          ("psu", assembly.psu.item.productId), ("case", assembly.chassis.item.productId)]
        ++ (assembly.cooler.toList.map fun cooler => ("cooler", cooler.item.productId))
        ++ assembly.storage.zipIdx.map fun (drive, before) =>
          (s!"storage{before + 1}", drive.item.productId)) ∧
      (result.parts.map Prod.fst).Pairwise (· < ·) ∧
      (do
        let searched ← assembly.cpu.item.price.add? assembly.motherboard.item.price
        let searched ← searched.add? assembly.gpu.item.price
        let searched ← searched.add? assembly.ram.item.price
        let housing ← assembly.psu.item.price.add? assembly.chassis.item.price
        let housed ← searched.add? housing
        let cooled ← housed.add? ((assembly.cooler.map fun cooler => cooler.item.price).getD .zero)
        let drives ← (assembly.storage.map fun drive => drive.item.price).foldlM Decimal.add? .zero
        cooled.add? drives) = some result.total ∧
      let weights := Weights.ofTags request.priorities
      let plus := workshop.machine.add
      let times (score : Double) (weight : Weight) :=
        workshop.machine.mul score (.ofFloat weight.toFloat)
      let drives := (assembly.storage.map Candidate.score).foldl plus (.ofFloat (-0.0))
      result.compositeScore =
        plus (plus (plus (times assembly.cpu.score weights.cpu)
          (times assembly.gpu.score weights.gpu)) (times assembly.ram.score weights.ram))
          (times drives weights.storage) := by
  obtain ⟨items, combination, build, hcatalog, hoptimum, rfl⟩ := exists_optimum_of_run h
  obtain ⟨hcompletes, htotal, -, -, hscore⟩ :=
    Evaluation.of?_eq_feasible_iff.mp hoptimum.feasible
  have hstems := stemsFrom_of_completes (CandidatePools.offers_of_mem hoptimum.mem) hcompletes
  have hdrives : build.assembly.storage.length =
      min 2 (Catalog.pools workshop.lookup settings.beamWidth.toNat items).storage.length := by
    rw [hcompletes.storage]
    exact List.length_take
  obtain ⟨hparts, hsorted⟩ := ChosenBuild.parts_perm (hdrives.trans_le (Nat.min_le_left _ _))
  refine ⟨items, build.assembly, hcatalog, hstems, hcompletes.storage, rfl, ?_, hparts, hsorted,
    htotal, ?_⟩
  · rw [← hdrives]
    exact List.length_map ..
  · exact hscore

/-- The processor of the sample has the id one, and so has the tag of the item
    whose product is listed for it. -/
theorem run_coherent_sample :
    ∃ result, run sampleWorkshop {} { budget := 800 } false = .ok result ∧
      result.parts.map Prod.fst =
        ["case", "cooler", "cpu", "gpu", "motherboard", "psu", "ram", "storage1"] ∧
      ∃ item : CatalogItem, ComponentTag.ofText? item.componentTag = some ⟨.cpu, 1⟩ ∧
        ("cpu", item.productId) ∈ result.parts := by
  have hsample : (run sampleWorkshop {} { budget := 800 } false).toOption.any (fun result =>
      result.parts.map Prod.fst ==
        ["case", "cooler", "cpu", "gpu", "motherboard", "psu", "ram", "storage1"] &&
      result.selection.cpu == some 1) = true := by
    decide +kernel
  obtain ⟨result, hrun, htest⟩ := exists_result_of_any hsample
  rw [Bool.and_eq_true, beq_iff_eq, beq_iff_eq] at htest
  obtain ⟨hnames, hcpu⟩ := htest
  obtain ⟨items, assembly, -, hstems, -, hselection, -, hparts, -⟩ := run_coherent hrun
  have hid : assembly.cpu.componentId = 1 := by
    rw [hselection] at hcpu
    exact Option.some.inj hcpu
  refine ⟨result, hrun, hnames, assembly.cpu.item, ?_, ?_⟩
  · rw [← hid]
    exact hstems.cpu.tag
  · exact hparts.mem_iff.mpr List.mem_cons_self

end PcAssembly.AutoBuild
