import PcAssembly.Search.Combination
import Mathlib.Data.List.Nodup

/-! # What combinations and picks are made of

    A combination points to four candidates by their places in the pools, and
    its ordinal is its own place in the list of combinations; so no two
    combinations have the same ordinal.  Supply, chassis and cooler are picked
    from their pools as well, and a pick fails only on an empty pool. -/

namespace PcAssembly

namespace Placed

variable {α : Type}

/-- The places of a pool are its positions with the candidates there. -/
theorem mem_all {pool : List (Candidate α)} {place : Placed α} :
    place ∈ all pool ↔ pool[place.index]? = some place.candidate := by
  rw [all, List.mem_map]
  constructor
  · rintro ⟨⟨candidate, index⟩, hmem, hplace⟩
    rw [← hplace]
    exact List.mem_zipIdx_iff_getElem?.mp hmem
  · intro h
    exact ⟨(place.candidate, place.index), List.mem_zipIdx_iff_getElem?.mpr h, rfl⟩

/-- The places of a pool hold its candidates. -/
theorem candidate_mem_of_mem_all {pool : List (Candidate α)} {place : Placed α}
    (h : place ∈ all pool) : place.candidate ∈ pool :=
  List.mem_of_getElem? (mem_all.mp h)

/-- The places of a pool hold its candidates. -/
theorem map_candidate_all (pool : List (Candidate α)) : (all pool).map candidate = pool := by
  rw [all, List.map_map]
  exact List.zipIdx_map_fst 0 pool

/-- The places of a pool are listed by their positions. -/
theorem pairwise_all (pool : List (Candidate α)) :
    (all pool).Pairwise fun x y => x.index < y.index := by
  rw [← List.pairwise_map (f := Placed.index), all, List.map_map]
  have hindices : pool.zipIdx.map (Placed.index ∘ fun entry => ⟨entry.2, entry.1⟩) =
      List.range' 0 pool.length := List.zipIdx_map_snd 0 pool
  rw [hindices]
  exact List.pairwise_lt_range'

/-- Every candidate has a place. -/
theorem exists_of_candidate_mem {pool : List (Candidate α)} {candidate : Candidate α}
    (h : candidate ∈ pool) : ∃ place ∈ all pool, place.candidate = candidate := by
  rw [← map_candidate_all pool] at h
  exact List.mem_map.mp h

/-- A pool has places if it has candidates. -/
theorem all_eq_nil_iff {pool : List (Candidate α)} : all pool = [] ↔ pool = [] := by
  simp [all]

/-- The better of a place and the best so far, if there is one. -/
def better (before : Candidate α → Candidate α → Bool) (best : Option (Placed α))
    (place : Placed α) : Placed α :=
  match best with
  | none => place
  | some best => if before place.candidate best.candidate then place else best

variable {before : Candidate α → Candidate α → Bool} {places : List (Placed α)} {place : Placed α}

/-- The better of two places is one of them. -/
theorem better_eq (before : Candidate α → Candidate α → Bool) (best : Option (Placed α))
    (place : Placed α) :
    better before best place = place ∨ best = some (better before best place) := by
  cases best with
  | none => exact Or.inl rfl
  | some best =>
      rw [better]
      split
      · exact Or.inl rfl
      · exact Or.inr rfl

/-- Looking for the first goes from place to place and keeps the better one. -/
theorem first?_eq_foldl :
    first? before places =
      places.foldl (fun best place => some (better before best place)) none := by
  rw [first?]
  congr 1
  funext best place
  cases best with
  | none => rfl
  | some best => exact (apply_ite some _ _ _).symm

private theorem mem_of_foldl_better (best : Option (Placed α))
    (h : places.foldl (fun best place => some (better before best place)) best = some place) :
    best = some place ∨ place ∈ places := by
  induction places generalizing best with
  | nil => exact Or.inl h
  | cons head rest ih =>
      rcases ih _ h with hstep | hmem
      · -- what is kept after the first step is the head or was there before
        rcases better_eq before best head with heq | heq
        · have hhead : head = place := heq.symm.trans (Option.some.inj hstep)
          exact Or.inr (hhead ▸ List.mem_cons_self)
        · exact Or.inl (heq.trans hstep)
      · exact Or.inr (List.mem_cons_of_mem _ hmem)

/-- The first of several places is one of them. -/
theorem mem_of_first? (h : first? before places = some place) : place ∈ places := by
  rw [first?_eq_foldl] at h
  rcases mem_of_foldl_better none h with hnone | hmem
  · exact nomatch hnone
  · exact hmem

private theorem foldl_better_isSome (best : Placed α) :
    (places.foldl (fun best place => some (better before best place)) (some best)).isSome := by
  induction places generalizing best with
  | nil => rfl
  | cons head rest ih => exact ih _

/-- There is a first of several places if there is any. -/
theorem first?_isSome (h : places ≠ []) : (first? before places).isSome := by
  rw [first?_eq_foldl]
  cases places with
  | nil => exact absurd rfl h
  | cons head rest => exact foldl_better_isSome head

end Placed

namespace Pick

/-- A choice with a fallback comes from where its two parts come from. -/
private theorem mem_of_orElse {α : Type} {places : List α} {preferred fallback : Option α}
    {place : α} (hpreferred : ∀ x, preferred = some x → x ∈ places)
    (hfallback : ∀ x, fallback = some x → x ∈ places)
    (h : (preferred <|> fallback) = some place) : place ∈ places := by
  cases preferred with
  | none => exact hfallback place h
  | some x => exact hpreferred place h

private theorem isSome_orElse {α : Type} (preferred : Option α) {fallback : Option α}
    (h : fallback.isSome) : (preferred <|> fallback).isSome := by
  cases preferred with
  | none => exact h
  | some x => rfl

/-- A supply is picked from its pool. -/
theorem mem_of_psu? {psus : List (Candidate Psu)} {required : UInt32} {place : Placed Psu}
    (h : psu? psus required = some place) : place ∈ Placed.all psus := by
  exact mem_of_orElse (fun _ hadequate => List.mem_of_mem_filter (Placed.mem_of_first? hadequate))
    (fun _ hnearest => Placed.mem_of_first? hnearest) h

/-- A pool of supplies always has a pick. -/
theorem psu?_isSome {psus : List (Candidate Psu)} (required : UInt32) (h : psus ≠ []) :
    (psu? psus required).isSome := by
  have hplaces : Placed.all psus ≠ [] := fun hnil => h (Placed.all_eq_nil_iff.mp hnil)
  exact isSome_orElse _ (Placed.first?_isSome hplaces)

private theorem mem_of_find?_or_head? {α : Type} {fits : Placed α → Bool}
    {places : List (Placed α)} {place : Placed α}
    (h : (places.find? fits <|> places.head?) = some place) : place ∈ places :=
  mem_of_orElse (fun _ hfits => List.mem_of_find?_eq_some hfits)
    (fun _ hfirst => List.mem_of_mem_head? hfirst) h

/-- A case is picked from its pool. -/
theorem mem_of_chassis? {pool : List (Candidate Chassis)} {gpu : Gpu} {place : Placed Chassis}
    (h : chassis? pool gpu = some place) : place ∈ Placed.all pool :=
  mem_of_find?_or_head? h

/-- A cooler is picked from its pool. -/
theorem mem_of_cooler? {pool : List (Candidate Cooler)} {chassis : Chassis} {cpu : Cpu}
    {place : Placed Cooler} (h : cooler? pool chassis cpu = some place) :
    place ∈ Placed.all pool :=
  mem_of_find?_or_head? h

/-- A pool of cases always has a pick. -/
theorem chassis?_isSome {pool : List (Candidate Chassis)} (gpu : Gpu) (h : pool ≠ []) :
    (chassis? pool gpu).isSome := by
  have hplaces : Placed.all pool ≠ [] := fun hnil => h (Placed.all_eq_nil_iff.mp hnil)
  exact isSome_orElse _ (List.isSome_head?.mpr hplaces)

/-- A pool of coolers always has a pick. -/
theorem cooler?_isSome {pool : List (Candidate Cooler)} (chassis : Chassis) (cpu : Cpu)
    (h : pool ≠ []) : (cooler? pool chassis cpu).isSome := by
  have hplaces : Placed.all pool ≠ [] := fun hnil => h (Placed.all_eq_nil_iff.mp hnil)
  exact isSome_orElse _ (List.isSome_head?.mpr hplaces)

end Pick

/-! ## The list of combinations -/

namespace CandidatePools

/-- A combination of these pools: four candidates at their places, and a board
    with the socket of the processor. -/
structure Offers (pools : CandidatePools) (combination : Combination) : Prop where
  cpu : combination.cpu ∈ Placed.all pools.cpus
  motherboard : combination.motherboard ∈ Placed.all pools.motherboards
  gpu : combination.gpu ∈ Placed.all pools.gpus
  ram : combination.ram ∈ Placed.all pools.rams
  socket : combination.motherboard.candidate.facts.socket =
    combination.cpu.candidate.facts.socket

/-- A pair of a processor and a board comes from the pools and shares a
    socket. -/
theorem mem_socketPairs {pools : CandidatePools} {cpu : Placed Cpu}
    {board : Placed Motherboard} (h : (cpu, board) ∈ pools.socketPairs) :
    cpu ∈ Placed.all pools.cpus ∧ board ∈ Placed.all pools.motherboards ∧
      board.candidate.facts.socket = cpu.candidate.facts.socket := by
  obtain ⟨cpu', hcpu, hpairs⟩ := List.mem_flatMap.mp h
  obtain ⟨board', hboard, heq⟩ := List.mem_map.mp hpairs
  obtain ⟨rfl, rfl⟩ := Prod.mk.inj heq
  obtain ⟨hmem, hsocket⟩ := List.mem_filter.mp hboard
  exact ⟨hcpu, hmem, beq_iff_eq.mp hsocket⟩

/-- A combination is made of what the pools offer. -/
theorem offers_of_mem {pools : CandidatePools} {combination : Combination}
    (h : combination ∈ pools.combinations) : pools.Offers combination := by
  obtain ⟨⟨⟨cpu, board, gpu, ram⟩, ordinal⟩, hmem, rfl⟩ := List.mem_map.mp h
  obtain ⟨⟨cpu', board'⟩, hpair, hrest⟩ := List.mem_flatMap.mp (List.fst_mem_of_mem_zipIdx hmem)
  obtain ⟨gpu', hgpu, hrams⟩ := List.mem_flatMap.mp hrest
  obtain ⟨ram', hram, heq⟩ := List.mem_map.mp hrams
  cases (show (cpu', board', gpu', ram') = (cpu, board, gpu, ram) from heq)
  obtain ⟨hcpu, hboard, hsocket⟩ := mem_socketPairs hpair
  exact ⟨hcpu, hboard, hgpu, hram, hsocket⟩

/-- Four candidates that go together are combined. -/
theorem exists_ordinal_of_offers {pools : CandidatePools} {combination : Combination}
    (h : pools.Offers combination) :
    ∃ ordinal, { combination with ordinal } ∈ pools.combinations := by
  obtain ⟨_, cpu, board, gpu, ram⟩ := combination
  obtain ⟨hcpu, hboard, hgpu, hram, hsocket⟩ := h
  have hpair : (cpu, board) ∈ pools.socketPairs :=
    List.mem_flatMap.mpr ⟨cpu, hcpu, List.mem_map.mpr
      ⟨board, List.mem_filter.mpr ⟨hboard, beq_iff_eq.mpr hsocket⟩, rfl⟩⟩
  have hquadruple : (cpu, board, gpu, ram) ∈ pools.socketPairs.flatMap fun pair =>
      (Placed.all pools.gpus).flatMap fun gpu =>
        (Placed.all pools.rams).map fun ram => (pair.1, pair.2, gpu, ram) :=
    List.mem_flatMap.mpr ⟨(cpu, board), hpair, List.mem_flatMap.mpr
      ⟨gpu, hgpu, List.mem_map.mpr ⟨ram, hram, rfl⟩⟩⟩
  obtain ⟨ordinal, hordinal⟩ := List.mem_iff_getElem?.mp hquadruple
  exact ⟨ordinal, List.mem_map.mpr ⟨((cpu, board, gpu, ram), ordinal),
    List.mem_zipIdx_iff_getElem?.mpr hordinal, rfl⟩⟩

/-- A combination's ordinal is its place in the list. -/
theorem map_ordinal_combinations (pools : CandidatePools) :
    pools.combinations.map Combination.ordinal = List.range pools.combinations.length := by
  simp only [combinations, List.map_map, List.length_map, List.length_zipIdx]
  exact (List.zipIdx_map_snd 0 _).trans (List.range_eq_range' ).symm

/-- No two combinations have the same ordinal. -/
theorem nodup_ordinals (pools : CandidatePools) :
    (pools.combinations.map Combination.ordinal).Nodup := by
  rw [map_ordinal_combinations]
  exact List.nodup_range

/-- A combination is known by its ordinal. -/
theorem eq_of_ordinal_eq {pools : CandidatePools} {x y : Combination}
    (hx : x ∈ pools.combinations) (hy : y ∈ pools.combinations) (h : x.ordinal = y.ordinal) :
    x = y :=
  List.inj_on_of_nodup_map pools.nodup_ordinals hx hy h

end CandidatePools

end PcAssembly
