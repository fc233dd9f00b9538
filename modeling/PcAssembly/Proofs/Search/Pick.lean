import Mathlib.Data.List.MinMax
import PcAssembly.Proofs.Decimal.Value
import PcAssembly.Proofs.Search.Combination

/-! # Which supply, chassis and cooler are picked

    As long as some part fits, a pick is a part that fits and the first of
    these in its own order: of the supplies that are strong enough the cheapest
    is picked, and of the chassis and the coolers that fit the one that stands
    first in its pool.  What else a part would have to go with is not asked. -/

namespace PcAssembly

namespace Placed

variable {α κ : Type} [LinearOrder κ]

theorem map_candidate_filter (pool : List (Candidate α)) (test : Candidate α → Bool) :
    ((all pool).filter fun place => test place.candidate).map candidate = pool.filter test := by
  conv_rhs => rw [← map_candidate_all pool, List.filter_map]
  rfl

theorem map_candidate_find? (pool : List (Candidate α)) (test : Candidate α → Bool) :
    ((all pool).find? fun place => test place.candidate).map candidate = pool.find? test := by
  conv_rhs => rw [← map_candidate_all pool, List.find?_map]
  rfl

/-- To look for the first that no other one is before is to look for the first
    with the least key, if to be before is to have a smaller key. -/
theorem first?_eq_argmin {key : Candidate α → κ} {before : Candidate α → Candidate α → Bool}
    (hkey : ∀ x y, before x y = true ↔ key x < key y) (places : List (Placed α)) :
    first? before places = places.argmin fun place => key place.candidate := by
  rw [first?_eq_foldl, List.argmin]
  congr 1
  funext best place
  cases best with
  | none => rfl
  | some best =>
      -- both keep the newcomer exactly if its key is smaller
      by_cases hbefore : before place.candidate best.candidate = true
      · simp [better, List.argAux, hbefore, (hkey _ _).mp hbefore]
      · simp [better, List.argAux, hbefore, mt (hkey _ _).mpr hbefore]

/-- The candidate at the place that is found is the first with the least key. -/
theorem map_first?_eq_argmin (key : Candidate α → κ) {before : Candidate α → Candidate α → Bool}
    (hkey : ∀ x y, before x y = true ↔ key x < key y) (places : List (Placed α)) :
    (first? before places).map candidate = (places.map candidate).argmin key := by
  rw [first?_eq_argmin hkey, List.argmin, List.argmin, List.foldl_map]
  refine (List.foldl_hom (Option.map candidate) fun best place => ?_).symm
  cases best with
  | none => rfl
  | some best => simp only [List.argAux, Option.map_some, apply_ite (Option.map candidate)]

end Placed

namespace Pick

/-- A choice that has a preference does not fall back. -/
private theorem map_orElse {α β : Type} {f : α → β} {preferred fallback : Option α}
    (h : (preferred.map f).isSome) : (preferred <|> fallback).map f = preferred.map f := by
  cases preferred with
  | none => exact nomatch h
  | some x => rfl

/-- If some supply is strong enough, the search among those is the pick. -/
theorem psu?_of_strong {psus : List (Candidate Psu)} {required : UInt32}
    (hstrong : ∃ psu ∈ psus, required ≤ psu.facts.wattage) :
    psu? psus required = Placed.first? (fun x y => x.price.lt y.price)
      ((Placed.all psus).filter fun place => required ≤ place.candidate.facts.wattage) := by
  obtain ⟨psu, hmem, hwattage⟩ := hstrong
  obtain ⟨place, hplace, rfl⟩ := Placed.exists_of_candidate_mem hmem
  have hsearched : (Placed.all psus).filter
      (fun place => required ≤ place.candidate.facts.wattage) ≠ [] :=
    List.ne_nil_of_mem (List.mem_filter.mpr ⟨hplace, decide_eq_true hwattage⟩)
  obtain ⟨found, hfound⟩ := Option.isSome_iff_exists.mp (Placed.first?_isSome hsearched)
  rw [psu?, hfound]
  rfl

/-- **If some supply is strong enough, the cheapest of those is picked**, and of
    several the first. -/
theorem map_psu?_eq {psus : List (Candidate Psu)} {required : UInt32}
    (hstrong : ∃ psu ∈ psus, required ≤ psu.facts.wattage) :
    (psu? psus required).map Placed.candidate =
      (psus.filter fun psu => required ≤ psu.facts.wattage).argmin fun psu => psu.price.value := by
  rw [psu?_of_strong hstrong,
    Placed.map_first?_eq_argmin (fun psu => psu.price.value) fun _ _ => Decimal.lt_iff,
    Placed.map_candidate_filter psus fun psu => required ≤ psu.facts.wattage]

/-- **If some chassis houses the graphics card, the first of those is picked.** -/
theorem map_chassis?_eq {pool : List (Candidate Chassis)} {gpu : Gpu}
    (hhoused : ∃ chassis ∈ pool, gpu.lengthMm ≤ chassis.facts.gpuMaxLengthMm) :
    (chassis? pool gpu).map Placed.candidate =
      pool.find? fun chassis => gpu.lengthMm ≤ chassis.facts.gpuMaxLengthMm := by
  have hfirst := Placed.map_candidate_find? pool fun chassis =>
    gpu.lengthMm ≤ chassis.facts.gpuMaxLengthMm
  have hsome : (pool.find? fun chassis => gpu.lengthMm ≤ chassis.facts.gpuMaxLengthMm).isSome := by
    obtain ⟨chassis, hmem, hlength⟩ := hhoused
    exact List.find?_isSome.mpr ⟨chassis, hmem, decide_eq_true hlength⟩
  rw [chassis?, map_orElse (hfirst ▸ hsome), hfirst]

/-- **If some cooler fits, the first of those is picked.** -/
theorem map_cooler?_eq {pool : List (Candidate Cooler)} {chassis : Chassis} {cpu : Cpu}
    (hfits : ∃ cooler ∈ pool, coolerFits chassis cpu cooler.facts = true) :
    (cooler? pool chassis cpu).map Placed.candidate =
      pool.find? fun cooler => coolerFits chassis cpu cooler.facts := by
  have hfirst := Placed.map_candidate_find? pool fun cooler => coolerFits chassis cpu cooler.facts
  rw [cooler?, map_orElse (hfirst ▸ List.find?_isSome.mpr hfits), hfirst]

end Pick

end PcAssembly
