import PcAssembly.Proofs.Search.Combination

/-! # Candidates that are taken away

    Candidates may be taken away from the four pools that are searched,
    wherever they stand.  What remains keeps its order, and with it the
    combinations of what remains: they are those of which nothing was taken
    away.  All of them are numbered anew, but the earlier of two stays the
    earlier one. -/

namespace PcAssembly

/-! ## Choosing from what remains -/

/-- All pairs of an element and one of those that go with it, in order. -/
def paired {α β : Type} (as : List α) (partners : α → List β) : List (α × β) :=
  as.flatMap fun a => (partners a).map fun b => (a, b)

/-- All choices of one element from each of four lists in which the first two
    fit together, in order. -/
def crossed {α β γ δ : Type} (fits : α → β → Bool) (as : List α) (bs : List β) (cs : List γ)
    (ds : List δ) : List (α × β × γ × δ) :=
  paired as fun a => paired (bs.filter (fits a)) fun _ => paired cs fun _ => ds

section Choices

variable {α β γ δ α' β' γ' δ' : Type}

theorem paired_cons (a : α) (as : List α) (partners : α → List β) :
    paired (a :: as) partners = (partners a).map (fun b => (a, b)) ++ paired as partners := rfl

/-- Pairs of what is kept are the pairs of which both are kept. -/
theorem paired_filter (keep : α → Bool) (keepPartner : β → Bool) (as : List α)
    (partners : α → List β) :
    paired (as.filter keep) (fun a => (partners a).filter keepPartner) =
      (paired as partners).filter fun x => keep x.1 && keepPartner x.2 := by
  induction as with
  | nil => rfl
  | cons a as ih =>
      rw [paired_cons, List.filter_append, List.filter_map, ← ih]
      cases hkeep : keep a with
      | false => simp [Function.comp_def, hkeep]
      | true => simp [Function.comp_def, hkeep, paired_cons]

/-- Filtering the four pools filters the combinations. -/
theorem crossed_filter {fits : α → β → Bool} (p : α → Bool) (q : β → Bool) (r : γ → Bool)
    (s : δ → Bool) (as : List α) (bs : List β) (cs : List γ) (ds : List δ) :
    crossed fits (as.filter p) (bs.filter q) (cs.filter r) (ds.filter s) =
      (crossed fits as bs cs ds).filter fun x =>
        p x.1 && (q x.2.1 && (r x.2.2.1 && s x.2.2.2)) := by
  simp only [crossed, List.filter_comm _ q, paired_filter]

/-- Mapping the four pools maps the combinations. -/
theorem crossed_map {fits : α' → β' → Bool} (f : α → α') (g : β → β') (h : γ → γ') (k : δ → δ')
    (as : List α) (bs : List β) (cs : List γ) (ds : List δ) :
    crossed fits (as.map f) (bs.map g) (cs.map h) (ds.map k) =
      (crossed (fun a b => fits (f a) (g b)) as bs cs ds).map fun x =>
        (f x.1, g x.2.1, h x.2.2.1, k x.2.2.2) := by
  simp only [crossed, paired, List.flatMap_map, List.filter_map, Function.comp_def,
    List.map_flatMap, List.map_map]

end Choices

namespace Combination

/-- The four places of a combination. -/
def places (combination : Combination) :
    Placed Cpu × Placed Motherboard × Placed Gpu × Placed RamKit :=
  (combination.cpu, combination.motherboard, combination.gpu, combination.ram)

/-- The four candidates of a combination. -/
def candidates (combination : Combination) :
    Candidate Cpu × Candidate Motherboard × Candidate Gpu × Candidate RamKit :=
  (combination.cpu.candidate, combination.motherboard.candidate, combination.gpu.candidate,
    combination.ram.candidate)

end Combination

namespace CandidatePools

/-- The board has the socket of the processor. -/
def socketFits (cpu : Candidate Cpu) (board : Candidate Motherboard) : Bool :=
  board.facts.socket == cpu.facts.socket

/-- The combinations are the choices of four places. -/
theorem map_places_combinations (pools : CandidatePools) :
    pools.combinations.map Combination.places =
      crossed (fun cpu board => socketFits cpu.candidate board.candidate) (Placed.all pools.cpus)
        (Placed.all pools.motherboards) (Placed.all pools.gpus) (Placed.all pools.rams) := by
  rw [combinations, List.map_map]
  refine (List.zipIdx_map_fst 0 _).trans ?_
  simp only [socketPairs, crossed, paired, List.flatMap_assoc, List.flatMap_map, List.map_flatMap,
    List.map_map, Function.comp_def, socketFits]

/-- The places of candidates that are taken away. -/
structure Withdrawal where
  cpus : Nat → Bool
  motherboards : Nat → Bool
  gpus : Nat → Bool
  rams : Nat → Bool

/-- What remains of a pool if the candidates at some places are taken away. -/
def remaining {α : Type} (withdrawn : Nat → Bool) (pool : List (Candidate α)) :
    List (Candidate α) :=
  ((Placed.all pool).filter fun place => !withdrawn place.index).map Placed.candidate

/-- The pools without the candidates that are taken away. -/
def withdraw (pools : CandidatePools) (withdrawal : Withdrawal) : CandidatePools :=
  { pools with
    cpus := remaining withdrawal.cpus pools.cpus
    motherboards := remaining withdrawal.motherboards pools.motherboards
    gpus := remaining withdrawal.gpus pools.gpus
    rams := remaining withdrawal.rams pools.rams }

/-- None of the four candidates is taken away. -/
def Withdrawal.spares (withdrawal : Withdrawal) (combination : Combination) : Bool :=
  !withdrawal.cpus combination.cpu.index &&
    (!withdrawal.motherboards combination.motherboard.index &&
      (!withdrawal.gpus combination.gpu.index && !withdrawal.rams combination.ram.index))

variable {pools : CandidatePools} {withdrawal : Withdrawal} {c c' d d' : Combination}

/-- The candidates of the combinations are the choices of four candidates. -/
theorem map_candidates_combinations (pools : CandidatePools) :
    pools.combinations.map Combination.candidates =
      crossed socketFits pools.cpus pools.motherboards pools.gpus pools.rams := by
  have hcandidates : pools.combinations.map Combination.candidates =
      (pools.combinations.map Combination.places).map fun x =>
        (x.1.candidate, x.2.1.candidate, x.2.2.1.candidate, x.2.2.2.candidate) := by
    rw [List.map_map]
    rfl
  rw [hcandidates, map_places_combinations, ← crossed_map, Placed.map_candidate_all,
    Placed.map_candidate_all, Placed.map_candidate_all, Placed.map_candidate_all]

/-- **What remains can be combined as before**: the combinations of the
    remaining candidates are those that are spared, in the same order. -/
theorem map_candidates_withdraw (pools : CandidatePools) (withdrawal : Withdrawal) :
    (pools.withdraw withdrawal).combinations.map Combination.candidates =
      (pools.combinations.filter withdrawal.spares).map Combination.candidates := by
  rw [map_candidates_combinations, withdraw]
  simp only [remaining]
  rw [crossed_map, crossed_filter, ← map_places_combinations, List.filter_map, List.map_map]
  rfl

/-- At every place among the combinations of what remains stand the candidates
    that stand at this place among the spared combinations. -/
theorem map_candidates_getElem?_withdraw (pools : CandidatePools) (withdrawal : Withdrawal)
    (i : Nat) :
    (pools.withdraw withdrawal).combinations[i]?.map Combination.candidates =
      (pools.combinations.filter withdrawal.spares)[i]?.map Combination.candidates := by
  rw [← List.getElem?_map, map_candidates_withdraw, List.getElem?_map]

/-! ## The new numbers -/

/-- The combinations are listed by their ordinals. -/
theorem pairwise_ordinal (pools : CandidatePools) :
    pools.combinations.Pairwise fun c d => c.ordinal < d.ordinal := by
  rw [← List.pairwise_map (f := Combination.ordinal), map_ordinal_combinations]
  exact List.pairwise_lt_range

/-- In a list by ordinals the earlier one has the smaller ordinal. -/
theorem ordinal_lt_iff_of_pairwise {combinations : List Combination} {i j : Nat}
    (hsorted : combinations.Pairwise fun c d => c.ordinal < d.ordinal)
    (hc : combinations[i]? = some c) (hd : combinations[j]? = some d) :
    c.ordinal < d.ordinal ↔ i < j := by
  obtain ⟨hi, rfl⟩ := List.getElem?_eq_some_iff.mp hc
  obtain ⟨hj, rfl⟩ := List.getElem?_eq_some_iff.mp hd
  have hlt := List.pairwise_iff_getElem.mp hsorted
  rcases Nat.lt_trichotomy i j with hij | rfl | hji
  · exact iff_of_true (hlt i j hi hj hij) hij
  · exact iff_of_false (Nat.lt_irrefl _) (Nat.lt_irrefl _)
  · exact iff_of_false (Nat.lt_asymm (hlt j i hj hi hji)) (Nat.lt_asymm hji)

/-- The first combination is spared and becomes the second: it has the same
    place among those that are spared as the second among those that remain. -/
def Becomes (pools : CandidatePools) (withdrawal : Withdrawal) (c d : Combination) : Prop :=
  ∃ i : Nat, (pools.combinations.filter withdrawal.spares)[i]? = some c ∧
    (pools.withdraw withdrawal).combinations[i]? = some d

namespace Becomes

/-- A combination that is spared becomes another. -/
theorem exists_of_spares (hmem : c ∈ pools.combinations) (hspares : withdrawal.spares c = true) :
    ∃ d, Becomes pools withdrawal c d := by
  obtain ⟨i, hi⟩ := List.mem_iff_getElem?.mp (List.mem_filter.mpr ⟨hmem, hspares⟩)
  have hcandidates := map_candidates_getElem?_withdraw pools withdrawal i
  rw [hi, Option.map_some] at hcandidates
  obtain ⟨d, hd, -⟩ := Option.map_eq_some_iff.mp hcandidates
  exact ⟨d, i, hi, hd⟩

/-- Every combination that is left was one before. -/
theorem exists_of_mem (hmem : d ∈ (pools.withdraw withdrawal).combinations) :
    ∃ c, Becomes pools withdrawal c d := by
  obtain ⟨i, hi⟩ := List.mem_iff_getElem?.mp hmem
  have hcandidates := map_candidates_getElem?_withdraw pools withdrawal i
  rw [hi, Option.map_some] at hcandidates
  obtain ⟨c, hc, -⟩ := Option.map_eq_some_iff.mp hcandidates.symm
  exact ⟨c, i, hc, hi⟩

variable (h : Becomes pools withdrawal c d)

include h

/-- What becomes another is a combination. -/
theorem mem : c ∈ pools.combinations := by
  obtain ⟨i, hi, -⟩ := h
  exact List.mem_of_mem_filter (List.mem_of_getElem? hi)

/-- What it becomes is a combination of the pools that are left. -/
theorem mem_withdraw : d ∈ (pools.withdraw withdrawal).combinations := by
  obtain ⟨i, -, hi⟩ := h
  exact List.mem_of_getElem? hi

/-- The candidates are the same. -/
theorem candidates_eq : d.candidates = c.candidates := by
  obtain ⟨i, hc, hd⟩ := h
  have hcandidates := map_candidates_getElem?_withdraw pools withdrawal i
  rw [hc, hd, Option.map_some, Option.map_some] at hcandidates
  exact Option.some.inj hcandidates

/-- Of two combinations the earlier one stays the earlier one. -/
theorem ordinal_lt_iff (h' : Becomes pools withdrawal c' d') :
    d.ordinal < d'.ordinal ↔ c.ordinal < c'.ordinal := by
  obtain ⟨i, hc, hd⟩ := h
  obtain ⟨j, hc', hd'⟩ := h'
  exact (ordinal_lt_iff_of_pairwise (pairwise_ordinal _) hd hd').trans
    (ordinal_lt_iff_of_pairwise (pools.pairwise_ordinal.filter _) hc hc').symm

/-- A combination becomes one combination only. -/
theorem unique (h' : Becomes pools withdrawal c d') : d' = d := by
  refine eq_of_ordinal_eq h'.mem_withdraw h.mem_withdraw (Nat.le_antisymm ?_ ?_)
  · exact Nat.le_of_not_lt fun hlt => Nat.lt_irrefl _ ((h.ordinal_lt_iff h').mp hlt)
  · exact Nat.le_of_not_lt fun hlt => Nat.lt_irrefl _ ((h'.ordinal_lt_iff h).mp hlt)

end Becomes

end CandidatePools

end PcAssembly
