import PcAssembly.Proofs.Search.Fallback

/-! # Which supply is picked

    Two searches are chained.  If some supply is strong enough, the first of
    the cheapest of those is picked; else the first of the strongest, since of
    supplies that are all too weak the closest to what is required is the one
    with the most watts.  Prices are compared as numbers, whatever their scales.
    A larger requirement leaves fewer supplies to choose from, so as long as it
    leaves any it never makes the pick cheaper. -/

namespace PcAssembly

namespace Placed

variable {α κ : Type} [LinearOrder κ]

/-- In a list that is ordered by positions, no place in front of the least one
    has a key as small. -/
theorem index_le_of_mem_argmin {places : List (Placed α)} {key : Placed α → κ}
    {place other : Placed α} (hordered : places.Pairwise fun x y => x.index < y.index)
    (h : place ∈ places.argmin key) (hother : other ∈ places) (hle : key other ≤ key place) :
    place.index ≤ other.index := by
  classical
  have hplace := List.argmin_mem h
  rcases (List.index_of_argmin h hother hle).lt_or_eq with hlt | heq
  · have hindices := List.pairwise_iff_getElem.mp hordered _ _
      (List.idxOf_lt_length_of_mem hplace) (List.idxOf_lt_length_of_mem hother) hlt
    rw [List.getElem_idxOf, List.getElem_idxOf] at hindices
    exact hindices.le
  · rw [(List.idxOf_inj hplace).mp heq]

/-- What a search finds among the candidates that pass a test is the first of
    these with the least key, by its position in the whole pool. -/
theorem isFirst_of_first? (key : Candidate α → κ) (test : Candidate α → Bool)
    {pool : List (Candidate α)} {before : Candidate α → Candidate α → Bool}
    {best : Candidate α → Prop} {place : Placed α}
    (hkey : ∀ x y, before x y = true ↔ key x < key y)
    (hbest : ∀ candidate ∈ pool, best candidate ↔
      test candidate = true ∧ ∀ other ∈ pool, test other = true → key candidate ≤ key other)
    (h : first? before ((all pool).filter fun place => test place.candidate) = some place) :
    IsFirst pool best place := by
  rw [first?_eq_argmin hkey] at h
  obtain ⟨hplace, htest⟩ := List.mem_filter.mp (List.argmin_mem h)
  have hmem := candidate_mem_of_mem_all hplace
  constructor
  case here => exact mem_all.mp hplace
  case before =>
    -- a candidate in front that is as good would be found instead
    intro index hindex candidate hcandidate hgood
    obtain ⟨hpasses, hleast⟩ := (hbest _ (List.mem_of_getElem? hcandidate)).mp hgood
    have hearlier : ⟨index, candidate⟩ ∈ (all pool).filter fun place => test place.candidate :=
      List.mem_filter.mpr ⟨mem_all.mpr hcandidate, hpasses⟩
    have hordered := (pairwise_all pool).filter fun place => test place.candidate
    have hle := index_le_of_mem_argmin hordered h hearlier (hleast _ hmem htest)
    exact absurd hindex (not_lt.mpr hle)
  case fits =>
    refine (hbest _ hmem).mpr ⟨htest, fun other hother hpasses => ?_⟩
    obtain ⟨found, hfound, rfl⟩ := exists_of_candidate_mem hother
    exact List.le_of_mem_argmin (f := fun place : Placed α => key place.candidate)
      (List.mem_filter.mpr ⟨hfound, hpasses⟩) h

end Placed

namespace Pick

/-- The supply is strong enough, and none that is strong enough has a smaller
    price. -/
structure CheapestStrong (psus : List (Candidate Psu)) (required : UInt32) (psu : Candidate Psu) :
    Prop where
  strong : required ≤ psu.facts.wattage
  cheapest : ∀ other ∈ psus, required ≤ other.facts.wattage → psu.price.value ≤ other.price.value

/-- No supply has more watts. -/
def Strongest (psus : List (Candidate Psu)) (psu : Candidate Psu) : Prop :=
  ∀ other ∈ psus, other.facts.wattage ≤ psu.facts.wattage

variable {psus : List (Candidate Psu)} {required larger : UInt32}

theorem psu?_eq_none_iff : psu? psus required = none ↔ psus = [] := by
  constructor
  · intro hnone
    by_contra hsome
    have hpicked := psu?_isSome required hsome
    rw [hnone] at hpicked
    exact nomatch hpicked
  · rintro rfl
    rfl

/-- **If some supply is strong enough, the first of the cheapest of those is
    picked.** -/
theorem exists_psu?_of_strong (hstrong : ∃ psu ∈ psus, required ≤ psu.facts.wattage) :
    ∃ place, psu? psus required = some place ∧
      place.IsFirst psus (CheapestStrong psus required) := by
  have hsome : psus ≠ [] := hstrong.elim fun psu hpsu => List.ne_nil_of_mem hpsu.1
  obtain ⟨place, hplace⟩ := Option.isSome_iff_exists.mp (psu?_isSome required hsome)
  refine ⟨place, hplace, ?_⟩
  rw [psu?_of_strong hstrong] at hplace
  refine Placed.isFirst_of_first? (fun psu => psu.price.value)
    (fun psu => required ≤ psu.facts.wattage) (fun _ _ => Decimal.lt_iff) (fun psu _ => ?_) hplace
  simp only [decide_eq_true_eq]
  exact ⟨fun h => ⟨h.strong, h.cheapest⟩, fun h => ⟨h.1, h.2⟩⟩

/-- Of two wattages that are too small, the one closer to what is required is
    the larger one. -/
theorem distance_le_iff {x y : UInt32} (hx : x < required) (hy : y < required) :
    distance x required ≤ distance y required ↔ y ≤ x := by
  rw [UInt32.lt_iff_toNat_lt] at hx hy
  rw [UInt32.le_iff_toNat_le, distance, distance]
  omega

/-- If all supplies are too weak, the search among all of them is the pick. -/
theorem psu?_of_weak (hweak : ∀ psu ∈ psus, psu.facts.wattage < required) :
    psu? psus required = Placed.first? (fun x y =>
      distance x.facts.wattage required < distance y.facts.wattage required)
        (Placed.all psus) := by
  have hnone : ((Placed.all psus).filter fun place =>
      required ≤ place.candidate.facts.wattage) = [] :=
    List.filter_eq_nil_iff.mpr fun place hplace hstrong =>
      UInt32.not_lt.mpr (of_decide_eq_true hstrong)
        (hweak _ (Placed.candidate_mem_of_mem_all hplace))
  rw [psu?, hnone]
  rfl

/-- **If there are supplies and all are too weak, the first of the strongest is
    picked.** -/
theorem exists_psu?_of_weak (hweak : ∀ psu ∈ psus, psu.facts.wattage < required)
    (hsome : psus ≠ []) :
    ∃ place, psu? psus required = some place ∧ place.IsFirst psus (Strongest psus) := by
  obtain ⟨place, hplace⟩ := Option.isSome_iff_exists.mp (psu?_isSome required hsome)
  refine ⟨place, hplace, ?_⟩
  rw [psu?_of_weak hweak, ← List.filter_true (Placed.all psus)] at hplace
  refine Placed.isFirst_of_first? (fun psu => distance psu.facts.wattage required)
    (fun _ => true) (fun _ _ => decide_eq_true_iff) (fun psu hmem => ?_) hplace
  simp only [true_and, forall_const]
  -- the closest is the strongest, since all are too weak
  exact forall₂_congr fun other hother =>
    (distance_le_iff (hweak psu hmem) (hweak other hother)).symm

/-- **A larger requirement never makes the pick cheaper**, as long as some supply
    meets it. -/
theorem exists_psu?_price_le (hlarger : required ≤ larger)
    (hmet : ∃ psu ∈ psus, larger ≤ psu.facts.wattage) :
    ∃ place upgraded, psu? psus required = some place ∧ psu? psus larger = some upgraded ∧
      place.candidate.price.value ≤ upgraded.candidate.price.value := by
  obtain ⟨upgraded, hupgraded, hlast⟩ := exists_psu?_of_strong hmet
  obtain ⟨psu, hmem, hwattage⟩ := hmet
  obtain ⟨place, hplace, hfirst⟩ :=
    exists_psu?_of_strong ⟨psu, hmem, UInt32.le_trans hlarger hwattage⟩
  -- what is picked for the larger requirement was there to be picked for the smaller one
  have hstrong : required ≤ upgraded.candidate.facts.wattage :=
    UInt32.le_trans hlarger hlast.fits.strong
  exact ⟨place, upgraded, hplace, hupgraded,
    hfirst.fits.cheapest _ (List.mem_of_getElem? hlast.here) hstrong⟩

/-- **The pick of a supply is settled by wattages and prices.**  Only an empty
    pool has none.  If some supply is strong enough, the first of the cheapest of
    those is picked, else the first of the strongest; and a larger requirement
    that is still met never makes the pick cheaper. -/
theorem psu?_picks_first_best (psus : List (Candidate Psu)) (required : UInt32) :
    (psu? psus required = none ↔ psus = []) ∧
    ((∃ psu ∈ psus, required ≤ psu.facts.wattage) →
      ∃ place, psu? psus required = some place ∧
        place.IsFirst psus (CheapestStrong psus required)) ∧
    ((¬ ∃ psu ∈ psus, required ≤ psu.facts.wattage) → psus ≠ [] →
      ∃ place, psu? psus required = some place ∧ place.IsFirst psus (Strongest psus)) ∧
    (∀ larger, required ≤ larger → (∃ psu ∈ psus, larger ≤ psu.facts.wattage) →
      ∃ place upgraded, psu? psus required = some place ∧ psu? psus larger = some upgraded ∧
        place.candidate.price.value ≤ upgraded.candidate.price.value) := by
  refine ⟨psu?_eq_none_iff, exists_psu?_of_strong, fun hnone => ?_,
    fun larger => exists_psu?_price_le⟩
  refine exists_psu?_of_weak fun psu hmem => ?_
  exact UInt32.not_le.mp fun hstrong => hnone ⟨psu, hmem, hstrong⟩

/-- Supplies with two prices that are one number in different scales, and with
    the largest wattage at two prices. -/
def tiedSupplies : List (Candidate Psu) :=
  [.sample 40 (.ofInt64 40) ⟨450, "ATX"⟩ 1, .sample 41 (.ofInt64 200) ⟨1000, "ATX"⟩ 1,
    .sample 42 ⟨900, 1, by decide, by decide⟩ ⟨750, "ATX"⟩ 1,
    .sample 43 (.ofInt64 90) ⟨850, "ATX"⟩ 1, .sample 44 (.ofInt64 150) ⟨1000, "ATX"⟩ 1]

/-- For 700 watts the first of the two cheapest is picked, for 900 the cheaper of
    the two that are left, and for 1200, which none gives, the first of the two
    strongest, although it is the dearer one. -/
theorem psu?_picks_first_best_tied :
    psu? [] 700 = none ∧
    (∃ place, psu? tiedSupplies 700 = some place ∧ place.index = 2 ∧
      place.IsFirst tiedSupplies (CheapestStrong tiedSupplies 700)) ∧
    (∃ place, psu? tiedSupplies 1200 = some place ∧ place.index = 1 ∧
      place.IsFirst tiedSupplies (Strongest tiedSupplies)) ∧
    (∃ place upgraded, psu? tiedSupplies 700 = some place ∧
      psu? tiedSupplies 900 = some upgraded ∧ place.index = 2 ∧ upgraded.index = 4 ∧
      place.candidate.price.value ≤ upgraded.candidate.price.value) := by
  have hindex : ∀ {required place} {index : Nat}, psu? tiedSupplies required = some place →
      (psu? tiedSupplies required).map Placed.index = some index → place.index = index := by
    intro required place index hplace hfound
    rw [hplace] at hfound
    exact Option.some.inj hfound
  have hpicks := psu?_picks_first_best tiedSupplies
  obtain ⟨place, hplace, hfirst⟩ := (hpicks 700).2.1 (by decide +kernel)
  obtain ⟨strongest, hstrongest, hlast⟩ :=
    (hpicks 1200).2.2.1 (by decide +kernel) (List.cons_ne_nil _ _)
  obtain ⟨cheaper, upgraded, hcheaper, hupgraded, hprice⟩ :=
    (hpicks 700).2.2.2 900 (by decide) (by decide +kernel)
  exact ⟨(psu?_picks_first_best [] 700).1.mpr rfl,
    ⟨place, hplace, hindex hplace (by decide +kernel), hfirst⟩,
    ⟨strongest, hstrongest, hindex hstrongest (by decide +kernel), hlast⟩,
    ⟨cheaper, upgraded, hcheaper, hupgraded, hindex hcheaper (by decide +kernel),
      hindex hupgraded (by decide +kernel), hprice⟩⟩

end Pick

end PcAssembly
