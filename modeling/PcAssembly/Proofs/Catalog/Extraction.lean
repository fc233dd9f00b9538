import Mathlib.Algebra.Ring.Nat
import PcAssembly.Proofs.Catalog.Omission

/-! # What is extracted from a catalog

    Whether an item is a candidate, and of which category, can be read off the
    item and the part that its tag leads to, without a look at the rest of the
    catalog.  `CatalogItem.candidate?` says so.  A pool is the beginning of the
    ranking of its candidates and has nothing else in it; an item that is no
    candidate leaves no trace but in the counts, and every item is counted
    once. -/

namespace PcAssembly

/-- The candidate of a category that an item is: its tag has to name the
    category, and the part that is filed there under the id of the tag has to
    be of this category too. -/
def CatalogItem.candidate? (lookup : PartLookup) (category : Category) (item : CatalogItem) :
    Option (Candidate category.Facts) := do
  let tag ← ComponentTag.ofText? item.componentTag
  if tag.category = category then
    let part ← lookup category tag.componentId
    let facts ← part.facts? category
    return {
      item
      componentId := tag.componentId
      facts
      score := Candidate.scorePerPrice part.perfScore item.price }
  else none

namespace CatalogItem

variable {lookup : PartLookup} {category : Category} {item : CatalogItem}

theorem candidate?_eq_some_iff {candidate : Candidate category.Facts} :
    item.candidate? lookup category = some candidate ↔
      candidate.item = item ∧
      ComponentTag.ofText? item.componentTag = some ⟨category, candidate.componentId⟩ ∧
      lookup category candidate.componentId = some (.ofFacts category candidate.facts) ∧
      candidate.score = Candidate.scorePerPrice (Part.ofFacts category candidate.facts).perfScore
        item.price := by
  constructor
  · intro h
    obtain ⟨⟨named, id⟩, htag, h⟩ := Option.bind_eq_some_iff.mp h
    split at h
    · rename_i hcategory
      have hcategory : named = category := hcategory
      subst hcategory
      obtain ⟨part, hpart, h⟩ := Option.bind_eq_some_iff.mp h
      obtain ⟨facts, hfacts, h⟩ := Option.bind_eq_some_iff.mp h
      have hcandidate := (Option.some.inj h).symm
      subst hcandidate
      rw [Part.facts?_eq_some_iff] at hfacts
      subst hfacts
      exact ⟨rfl, htag, hpart, rfl⟩
    · exact nomatch h
  · obtain ⟨item', id, facts, score⟩ := candidate
    rintro ⟨rfl, htag, hpart, hscore⟩
    have hscore : score = Candidate.scorePerPrice (Part.ofFacts category facts).perfScore
      item'.price := hscore
    subst hscore
    refine Option.bind_eq_some_iff.mpr ⟨_, htag, ?_⟩
    rw [if_pos rfl]
    refine Option.bind_eq_some_iff.mpr ⟨_, hpart, ?_⟩
    exact Option.bind_eq_some_iff.mpr ⟨_, Part.facts?_eq_some_iff.mpr rfl, rfl⟩

/-- Following the tag of an item and narrowing what it leads to gives the same
    candidate. -/
theorem candidate?_eq_bind_narrow? (lookup : PartLookup) (category : Category)
    (item : CatalogItem) :
    ((Resolution.ofItem lookup item).candidate?.bind (Candidate.narrow? category)) =
      item.candidate? lookup category := by
  refine Option.ext fun candidate => ?_
  rw [candidate?_eq_some_iff, Option.bind_eq_some_iff]
  constructor
  · rintro ⟨found, hfound, hnarrow⟩
    obtain ⟨⟨named, id⟩, part, htag, hpart, hcategory, rfl⟩ :=
      Resolution.ofItem_eq_found_iff.mp (Resolution.candidate?_eq_some_iff.mp hfound)
    obtain ⟨facts, hfacts, rfl⟩ := Option.map_eq_some_iff.mp hnarrow
    have hpartEq : part = .ofFacts category facts := Part.facts?_eq_some_iff.mp hfacts
    subst hpartEq
    have hnamed : category = named := (Part.category_ofFacts category facts).symm.trans hcategory
    subst hnamed
    exact ⟨rfl, htag, hpart, rfl⟩
  · obtain ⟨item', id, facts, score⟩ := candidate
    rintro ⟨rfl, htag, hpart, hscore⟩
    have hscore : score = Candidate.scorePerPrice (Part.ofFacts category facts).perfScore
      item'.price := hscore
    subst hscore
    refine ⟨_, Resolution.candidate?_eq_some_iff.mpr (Resolution.ofItem_eq_found_iff.mpr
      ⟨_, _, htag, hpart, Part.category_ofFacts category facts, rfl⟩), ?_⟩
    exact Option.map_eq_some_iff.mpr ⟨facts, Part.facts?_eq_some_iff.mpr rfl, rfl⟩

/-- An item is a candidate of a category exactly if its tag names the category
    and the part it leads to is of this category. -/
theorem exists_candidate?_iff {id : Int64} :
    (∃ candidate, item.candidate? lookup category = some candidate ∧
      candidate.componentId = id) ↔
      ComponentTag.ofText? item.componentTag = some ⟨category, id⟩ ∧
        ∃ part, lookup category id = some part ∧ part.category = category := by
  constructor
  · rintro ⟨candidate, hcandidate, rfl⟩
    obtain ⟨-, htag, hpart, -⟩ := candidate?_eq_some_iff.mp hcandidate
    exact ⟨htag, _, hpart, Part.category_ofFacts category candidate.facts⟩
  · rintro ⟨htag, part, hpart, hcategory⟩
    obtain ⟨facts, hfacts⟩ := Option.isSome_iff_exists.mp
      ((Part.facts?_isSome_iff category part).mpr hcategory)
    rw [Part.facts?_eq_some_iff] at hfacts
    subst hfacts
    let score := Candidate.scorePerPrice (Part.ofFacts category facts).perfScore item.price
    exact ⟨⟨item, id, facts, score⟩,
      candidate?_eq_some_iff.mpr ⟨rfl, htag, hpart, rfl⟩, rfl⟩

end CatalogItem

theorem Resolution.isMalformed_ofItem {lookup : PartLookup} {item : CatalogItem} :
    (ofItem lookup item).isMalformed = (ComponentTag.ofText? item.componentTag).isNone := by
  rw [ofItem]
  split
  · rename_i htag
    rw [htag]
    rfl
  · rename_i tag htag
    rw [htag]
    -- an item with a tag is unresolved at worst
    split
    · rfl
    · split <;> rfl

namespace Catalog

variable {lookup : PartLookup} {beamWidth : Nat} {items rest : List CatalogItem}

/-- The candidates of a category in a catalog are those of its items. -/
theorem filterMap_narrow?_candidates (lookup : PartLookup) (items : List CatalogItem)
    (category : Category) :
    (candidates lookup items).filterMap (Candidate.narrow? category) =
      items.filterMap (CatalogItem.candidate? lookup category) := by
  rw [candidates, List.filterMap_filterMap]
  exact List.filterMap_congr fun item _ => item.candidate?_eq_bind_narrow? lookup category

/-- A pool is made of the candidates of its category and of nothing else. -/
theorem pools_eq_ofPools (lookup : PartLookup) (beamWidth : Nat) (items : List CatalogItem) :
    pools lookup beamWidth items = .ofPools fun category =>
      Candidate.ranked (max 1 beamWidth)
        (items.filterMap (CatalogItem.candidate? lookup category)) := by
  rw [pools]
  congr 1
  funext category
  rw [filterMap_narrow?_candidates]

/-- A pool is the beginning of the ranking of its candidates. -/
theorem exists_ranking_pool (lookup : PartLookup) (beamWidth : Nat) (items : List CatalogItem)
    (category : Category) :
    ∃ cut, Candidate.IsRanking (items.filterMap (CatalogItem.candidate? lookup category))
        ((pools lookup beamWidth items).pool category ++ cut) ∧
      (pools lookup beamWidth items).pool category =
        ((pools lookup beamWidth items).pool category ++ cut).take (max 1 beamWidth) := by
  let ranking := (items.filterMap (CatalogItem.candidate? lookup category)).mergeSort
    Candidate.ranksBefore
  refine ⟨ranking.drop (max 1 beamWidth), ?_⟩
  rw [pools_eq_ofPools, CandidatePools.pool_ofPools, Candidate.ranked, List.take_append_drop]
  exact ⟨Candidate.isRanking_mergeSort _, rfl⟩

/-- Items that are no candidates leave the pools as they are. -/
theorem pools_eq_of_omits
    (h : Omits (fun item => ∀ category, item.candidate? lookup category = none) items rest) :
    pools lookup beamWidth rest = pools lookup beamWidth items := by
  rw [pools_eq_ofPools, pools_eq_ofPools]
  congr 1
  funext category
  have hnothing : Omits (fun _ : Candidate category.Facts => False)
      (items.filterMap (CatalogItem.candidate? lookup category))
      (rest.filterMap (CatalogItem.candidate? lookup category)) :=
    h.filterMap fun item hnone _ hsome => nomatch (hnone category).symm.trans hsome
  rw [hnothing.eq_of_never fun _ => id]

/-! ## Counting -/

/-- Every part is of one category. -/
theorem sum_length_filterMap_narrow? (found : List (Candidate Part)) :
    (Category.all.map fun category =>
      (found.filterMap (Candidate.narrow? category)).length).sum = found.length := by
  induction found with
  | nil => rfl
  | cons candidate rest ih =>
      obtain ⟨item, id, part, score⟩ := candidate
      rw [List.length_cons, ← ih]
      -- one of the eight lists is longer by one
      cases part <;>
        simp [Category.all, List.filterMap_cons, Candidate.narrow?, Part.facts?] <;> omega

theorem kept_stats (lookup : PartLookup) (items : List CatalogItem) :
    (stats lookup items).kept = (Category.all.map fun category =>
      (items.filterMap (CatalogItem.candidate? lookup category)).length).sum := by
  have hkept : (stats lookup items).kept = (candidates lookup items).length := by
    rw [candidates, List.length_filterMap_eq_countP]
    exact List.countP_map
  rw [hkept, ← sum_length_filterMap_narrow?]
  simp only [filterMap_narrow?_candidates]

/-- The items that are malformed are those whose tag cannot be read. -/
theorem malformed_stats (lookup : PartLookup) (items : List CatalogItem) :
    (stats lookup items).malformed =
      items.countP fun item => (ComponentTag.ofText? item.componentTag).isNone := by
  refine List.countP_map.trans (congrFun (congrArg List.countP (funext fun item => ?_)) items)
  exact Resolution.isMalformed_ofItem

/-- Every item is of one of three kinds. -/
theorem countP_resolutions (resolutions : List Resolution) :
    resolutions.length = resolutions.countP Resolution.isMalformed +
      resolutions.countP Resolution.isUnresolved +
      resolutions.countP fun resolution => resolution.candidate?.isSome := by
  induction resolutions with
  | nil => rfl
  | cons resolution rest ih =>
      simp only [List.length_cons, List.countP_cons, ih]
      cases resolution <;>
        simp [Resolution.isMalformed, Resolution.isUnresolved, Resolution.candidate?] <;> omega

/-- **What is extracted from a catalog.**  An item is a candidate of a category
    with an id exactly if its tag names both and the part that is filed there
    is of this category; it then carries the item, the id, the facts of this
    part and its rating per price: the rating over the price, or over one if the
    price is below one.  A pool and what the beam has cut off are together the
    ranking of the candidates in the catalog, with every one in its place once:
    none that was cut off has a higher score than one that was kept, and of
    those with one score the first in the catalog are kept.  Items that are no
    candidates change no pool.  Every item is counted once, as without a tag, as
    unresolved, or as a candidate before the cut. -/
theorem pools_rank_candidates (lookup : PartLookup) (beamWidth : Nat)
    (items : List CatalogItem) :
    (∀ category : Category,
      let found := items.filterMap (CatalogItem.candidate? lookup category)
      let pool := (pools lookup beamWidth items).pool category
      (∀ (item : CatalogItem) (id : Int64),
        (∃ candidate, item.candidate? lookup category = some candidate ∧
          candidate.componentId = id) ↔
          ComponentTag.ofText? item.componentTag = some ⟨category, id⟩ ∧
            ∃ part, lookup category id = some part ∧ part.category = category) ∧
      (∀ (item : CatalogItem) (candidate : Candidate category.Facts),
        item.candidate? lookup category = some candidate →
          candidate.item = item ∧
          lookup category candidate.componentId = some (.ofFacts category candidate.facts) ∧
          candidate.score = Candidate.scorePerPrice
            (Part.ofFacts category candidate.facts).perfScore item.price ∧
          candidate.score = .ofFloat ((Part.ofFacts category candidate.facts).perfScore /
            if item.price.toFloat < 1 then 1 else item.price.toFloat)) ∧
      ∃ cut, Candidate.IsRanking found (pool ++ cut) ∧
        pool = (pool ++ cut).take (max 1 beamWidth) ∧
        (pool ++ cut).Perm found ∧
        (pool.Pairwise fun x y => y.score.orderKey ≤ x.score.orderKey) ∧
        (∀ x ∈ pool, ∀ y ∈ cut, y.score.orderKey ≤ x.score.orderKey) ∧
        ∀ key : Int, (pool.filter fun c => c.score.orderKey = key) <+:
          found.filter fun c => c.score.orderKey = key) ∧
    (∀ rest, Omits (fun item => ∀ category, item.candidate? lookup category = none) items rest →
      pools lookup beamWidth rest = pools lookup beamWidth items) ∧
    (stats lookup items).total = items.length ∧
    (stats lookup items).malformed =
      (items.countP fun item => (ComponentTag.ofText? item.componentTag).isNone) ∧
    (stats lookup items).total = (stats lookup items).malformed +
      (stats lookup items).unresolved + (stats lookup items).kept ∧
    (stats lookup items).kept = (Category.all.map fun category =>
      (items.filterMap (CatalogItem.candidate? lookup category)).length).sum := by
  refine ⟨fun category => ⟨fun item id => CatalogItem.exists_candidate?_iff, ?_, ?_⟩,
    fun rest => pools_eq_of_omits, rfl, malformed_stats lookup items, ?_, kept_stats lookup items⟩
  · intro item candidate hcandidate
    obtain ⟨hitem, -, hpart, hscore⟩ := CatalogItem.candidate?_eq_some_iff.mp hcandidate
    exact ⟨hitem, hpart, hscore, hscore⟩
  · obtain ⟨cut, hranking, htake⟩ := exists_ranking_pool lookup beamWidth items category
    obtain ⟨hpool, -, hcut⟩ := List.pairwise_append.mp hranking.sorted
    refine ⟨cut, hranking, htake, hranking.perm, hpool, hcut, fun key => ?_⟩
    rw [← hranking.stable key, List.filter_append]
    exact List.prefix_append _ _
  · have hcount := countP_resolutions (items.map (Resolution.ofItem lookup))
    rw [List.length_map] at hcount
    exact hcount

/-- A store that has the same processor filed under every category. -/
def misfiledProcessor : PartLookup := fun _ id =>
  if id = 1 then some (.cpu ⟨"AM5", 65, 600⟩) else none

/-- An item with a product and a tag. -/
def taggedItem (productId : Int64) (componentTag : String) : CatalogItem :=
  { productId, price := .ofInt64 100, stock := 1, componentTag }

/-- Two items that sell the processor at one price, and between them one
    without a tag, one that sells it as a graphics card, and one whose tag
    leads nowhere. -/
def untidyItems : List CatalogItem :=
  [taggedItem 6 "\x7b\"type\": \"cpu\", \"id\": 1\x7d", taggedItem 7 "cpu 1",
    taggedItem 8 "\x7b\"type\": \"gpu\", \"id\": 1\x7d",
    taggedItem 9 "\x7b\"type\": \"cpu\", \"id\": 2\x7d",
    taggedItem 10 "\x7b\"type\": \"cpu\", \"id\": 1\x7d"]

/-- A beam of zero keeps one candidate, the first of two with the same score.
    The items between them are counted, and may as well be left out. -/
theorem pools_rank_candidates_untidy :
    (pools misfiledProcessor 0 untidyItems).cpus.map Candidate.productId = [6] ∧
    (stats misfiledProcessor untidyItems).malformed = 1 ∧
    (stats misfiledProcessor untidyItems).kept = 2 ∧
    ∃ rest, rest.length = 2 ∧
      pools misfiledProcessor 0 rest = pools misfiledProcessor 0 untidyItems := by
  obtain ⟨-, homits, -, hmalformed, -, hkept⟩ :=
    pools_rank_candidates misfiledProcessor 0 untidyItems
  let isCandidate (item : CatalogItem) : Bool := Category.all.any fun category =>
    (item.candidate? misfiledProcessor category).isSome
  have hrest : Omits (fun item => ∀ category, item.candidate? misfiledProcessor category = none)
      untidyItems (untidyItems.filter isCandidate) := by
    refine .filter (fun item hnever category => ?_) untidyItems
    have hnone := List.any_eq_false.mp hnever category (Category.mem_all category)
    exact Option.not_isSome_iff_eq_none.mp hnone
  refine ⟨?_, hmalformed.trans ?_, hkept.trans ?_, untidyItems.filter isCandidate, ?_,
    homits _ hrest⟩
  · rw [pools_eq_insertionSort]
    decide +kernel
  · decide +kernel
  · decide +kernel
  · decide +kernel

end Catalog

end PcAssembly
