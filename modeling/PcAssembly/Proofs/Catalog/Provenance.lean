import PcAssembly.Catalog.Candidate
import PcAssembly.Compatibility
import PcAssembly.Part.Data
import PcAssembly.Proofs.Text.Prefix

/-! # Where candidates come from

    A pool is made by following tags, sorting and cutting off, and none of
    this touches a candidate.  So every candidate of a pool stems from an item
    of the catalog whose tag names the category of the pool, and its facts are
    those that are filed under its id: whoever looks the id up again finds the
    same facts. -/

namespace PcAssembly

theorem Part.eq_ofFacts_of_facts? {category : Category} {part : Part} {facts : category.Facts}
    (h : part.facts? category = some facts) : part = Part.ofFacts category facts := by
  cases category <;> cases part <;> cases h <;> rfl

theorem Part.facts?_eq_some_iff {category : Category} {part : Part} {facts : category.Facts} :
    part.facts? category = some facts ↔ part = .ofFacts category facts := by
  constructor
  · exact Part.eq_ofFacts_of_facts?
  · rintro rfl
    cases category <;> rfl

theorem Part.category_ofFacts (category : Category) (facts : category.Facts) :
    (Part.ofFacts category facts).category = category := by
  cases category <;> rfl

/-- The candidate was made from an item of the catalog: the tag of the item
    names the category and the id, and the part filed there has the facts that
    the candidate carries and the rating that it is scored by. -/
structure Candidate.StemsFrom (lookup : PartLookup) (items : List CatalogItem)
    (category : Category) (candidate : Candidate category.Facts) : Prop where
  item : candidate.item ∈ items
  tag : ComponentTag.ofText? candidate.item.componentTag = some ⟨category, candidate.componentId⟩
  part : ∃ part, lookup category candidate.componentId = some part ∧
    part.facts? category = some candidate.facts ∧
    candidate.score = Candidate.scorePerPrice part.perfScore candidate.price

namespace Candidate.StemsFrom

variable {lookup : PartLookup} {items : List CatalogItem} {category : Category}
  {candidate : Candidate category.Facts}

/-- The id of a candidate leads back to its facts. -/
theorem facts? (h : candidate.StemsFrom lookup items category) :
    ResolvedBuild.facts? lookup category candidate.componentId = some candidate.facts := by
  obtain ⟨part, hlookup, hfacts, -⟩ := h.part
  rw [ResolvedBuild.facts?, hlookup]
  exact hfacts

/-- The id of a candidate is that of a part with its facts. -/
theorem lookup_eq (h : candidate.StemsFrom lookup items category) :
    lookup category candidate.componentId = some (.ofFacts category candidate.facts) := by
  obtain ⟨part, hlookup, hfacts, -⟩ := h.part
  rw [hlookup, Part.eq_ofFacts_of_facts? hfacts]

end Candidate.StemsFrom

namespace Resolution

variable {lookup : PartLookup} {item : CatalogItem}

/-- An item is found if it has a tag that leads to a part of its category. -/
theorem ofItem_eq_found_iff {candidate : Candidate Part} :
    ofItem lookup item = .found candidate ↔
      ∃ tag part, ComponentTag.ofText? item.componentTag = some tag ∧
        lookup tag.category tag.componentId = some part ∧ part.category = tag.category ∧
        candidate = ⟨item, tag.componentId, part,
          Candidate.scorePerPrice part.perfScore item.price⟩ := by
  constructor
  · intro h
    rw [ofItem] at h
    split at h
    · exact nomatch h
    · rename_i tag htag
      split at h
      · exact nomatch h
      · rename_i part hpart
        split at h
        · rename_i hcategory
          exact ⟨tag, part, htag, hpart, hcategory, (Resolution.found.inj h).symm⟩
        · exact nomatch h
  · rintro ⟨tag, part, htag, hpart, hcategory, rfl⟩
    simp only [ofItem, htag, hpart, hcategory, if_true]

theorem candidate?_eq_some_iff {resolution : Resolution} {candidate : Candidate Part} :
    resolution.candidate? = some candidate ↔ resolution = .found candidate := by
  cases resolution <;> simp [candidate?]

end Resolution

namespace Catalog

variable {lookup : PartLookup} {items : List CatalogItem} {beamWidth : Nat}

/-- Narrowing a candidate that was found keeps where it comes from. -/
theorem stemsFrom_of_narrow? {category : Category} {candidate : Candidate category.Facts}
    {found : Candidate Part} (hfound : found ∈ candidates lookup items)
    (hnarrow : found.narrow? category = some candidate) :
    candidate.StemsFrom lookup items category := by
  obtain ⟨item, hitem, hcandidate⟩ := List.mem_filterMap.mp hfound
  obtain ⟨tag, part, htag, hpart, hcategory, rfl⟩ :=
    Resolution.ofItem_eq_found_iff.mp (Resolution.candidate?_eq_some_iff.mp hcandidate)
  obtain ⟨facts, hfacts, rfl⟩ := Option.map_eq_some_iff.mp hnarrow
  -- the part has facts of this category, so the tag named this category
  have hsome : (part.facts? category).isSome := Option.isSome_iff_exists.mpr ⟨facts, hfacts⟩
  have htagCategory : tag.category = category :=
    hcategory.symm.trans ((Part.facts?_isSome_iff category part).mp hsome)
  subst htagCategory
  exact ⟨hitem, htag, part, hpart, hfacts, rfl⟩

/-- **Every candidate of a pool stems from the catalog**, whatever the beam
    width: sorting and cutting off only leave candidates out. -/
theorem stemsFrom_of_mem_pool (category : Category) {candidate : Candidate category.Facts}
    (h : candidate ∈ (pools lookup beamWidth items).pool category) :
    candidate.StemsFrom lookup items category := by
  rw [pools, CandidatePools.pool_ofPools] at h
  have hsorted := List.mem_of_mem_take h
  obtain ⟨found, hfound, hnarrow⟩ := List.mem_filterMap.mp (List.mem_mergeSort.mp hsorted)
  exact stemsFrom_of_narrow? hfound hnarrow

end Catalog

namespace CandidatePools

/-- Only processors of the platform are retained, and nothing else changes. -/
theorem mem_cpus_retainPlatform {pools : CandidatePools} {platform : Platform}
    {cpu : Candidate Cpu} :
    cpu ∈ (pools.retainPlatform platform).cpus ↔
      cpu ∈ pools.cpus ∧ platform.socketStart.toList <+: cpu.facts.socket.toList := by
  rw [retainPlatform, List.mem_filter, Platform.matchesSocket, Text.startsWith_iff]

end CandidatePools

end PcAssembly
