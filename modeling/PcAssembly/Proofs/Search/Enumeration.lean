import Mathlib.Data.List.ProdSigma
import Mathlib.Data.List.Sort
import Mathlib.Data.Prod.Lex
import PcAssembly.Proofs.Search.Withdrawal

/-! # The list of combinations

    The combinations are the choices of four positions, one in each of the four
    pools that are searched, such that the board at the second position has the
    socket of the processor at the first.  All of them are listed, none of them
    twice, in the lexicographic order of their positions.  For this the four
    loops are seen as choices of pairs, one inside the other: what holds of the
    pairs, whoever the partners are, holds of all four. -/

namespace PcAssembly

/-! ## Pairs and quadruples -/

section Choices

variable {α β γ δ : Type}

/-- Pairs come in the order of their first elements, and for one first element
    in the order of its partners. -/
theorem pairwise_paired {r : α → α → Prop} {s : β → β → Prop} {as : List α}
    {partners : α → List β} (has : as.Pairwise r) (hpartners : ∀ a, (partners a).Pairwise s) :
    (paired as partners).Pairwise (Prod.Lex r s) := by
  rw [paired, List.pairwise_flatMap]
  constructor
  · intro a _
    rw [List.pairwise_map]
    exact (hpartners a).imp fun hs => Prod.Lex.right a hs
  · refine has.imp fun hr x hx y hy => ?_
    obtain ⟨b, -, rfl⟩ := List.mem_map.mp hx
    obtain ⟨b', -, rfl⟩ := List.mem_map.mp hy
    exact Prod.Lex.left b b' hr

theorem pairwise_crossed {r : α → α → Prop} {s : β → β → Prop} {t : γ → γ → Prop}
    {u : δ → δ → Prop} (fits : α → β → Bool) {as : List α} {bs : List β} {cs : List γ}
    {ds : List δ} (has : as.Pairwise r) (hbs : bs.Pairwise s) (hcs : cs.Pairwise t)
    (hds : ds.Pairwise u) :
    (crossed fits as bs cs ds).Pairwise (Prod.Lex r (Prod.Lex s (Prod.Lex t u))) :=
  pairwise_paired has fun _ => pairwise_paired (hbs.filter _) fun _ =>
    pairwise_paired hcs fun _ => hds

theorem length_paired {as : List α} {partners : α → List β} {n : Nat}
    (h : ∀ a, (partners a).length = n) : (paired as partners).length = as.length * n := by
  induction as with
  | nil => exact (Nat.zero_mul n).symm
  | cons a as ih =>
      rw [paired_cons, List.length_append, List.length_map, h, ih, List.length_cons, Nat.succ_mul,
        Nat.add_comm]

/-- There are as many choices as there are pairs that fit, times the choices of
    the two others. -/
theorem length_crossed (fits : α → β → Bool) (as : List α) (bs : List β) (cs : List γ)
    (ds : List δ) :
    (crossed fits as bs cs ds).length =
      (as ×ˢ bs).countP (fun pair => fits pair.1 pair.2) * cs.length * ds.length := by
  have hothers : (paired cs fun _ => ds).length = cs.length * ds.length :=
    length_paired fun _ => rfl
  induction as with
  | nil => simp [crossed, paired]
  | cons a as ih =>
      have hfront : (paired (bs.filter (fits a)) fun _ => paired cs fun _ => ds).length =
          bs.countP (fits a) * (cs.length * ds.length) := by
        rw [length_paired fun _ => hothers, List.countP_eq_length_filter]
      have hcount : ((a :: as) ×ˢ bs).countP (fun pair => fits pair.1 pair.2) =
          bs.countP (fits a) + (as ×ˢ bs).countP (fun pair => fits pair.1 pair.2) := by
        rw [List.product_cons, List.countP_append, List.countP_map]
        rfl
      rw [crossed] at ih ⊢
      rw [paired_cons, List.length_append, List.length_map, hfront, ih, hcount]
      simp only [Nat.add_mul, Nat.mul_assoc]

end Choices

/-! ## Positions -/

/-- The positions of the four candidates of a combination in their pools,
    ordered by the first in which two of them differ. -/
def Combination.position (combination : Combination) : ℕ ×ₗ ℕ ×ₗ ℕ ×ₗ ℕ :=
  toLex (combination.cpu.index, toLex (combination.motherboard.index,
    toLex (combination.gpu.index, combination.ram.index)))

theorem Combination.position_lt_of_lex {x y : Combination}
    (h : Prod.Lex (fun p q : Placed Cpu => p.index < q.index)
      (Prod.Lex (fun p q : Placed Motherboard => p.index < q.index)
        (Prod.Lex (fun p q : Placed Gpu => p.index < q.index) fun p q => p.index < q.index))
      x.places y.places) : x.position < y.position := by
  simp only [position, Prod.Lex.toLex_lt_toLex]
  rcases Prod.lex_def.mp h with hcpu | ⟨hcpu, h⟩
  · exact Or.inl hcpu
  · refine Or.inr ⟨congrArg Placed.index hcpu, ?_⟩
    rcases Prod.lex_def.mp h with hboard | ⟨hboard, h⟩
    · exact Or.inl hboard
    · refine Or.inr ⟨congrArg Placed.index hboard, ?_⟩
      rcases Prod.lex_def.mp h with hgpu | ⟨hgpu, hram⟩
      · exact Or.inl hgpu
      · exact Or.inr ⟨congrArg Placed.index hgpu, hram⟩

namespace CandidatePools

/-- There are candidates at the four positions, and the board at the second has
    the socket of the processor at the first. -/
def Combines (pools : CandidatePools) (cpu motherboard gpu ram : ℕ) : Prop :=
  ∃ processor board, pools.cpus[cpu]? = some processor ∧
    pools.motherboards[motherboard]? = some board ∧
    board.facts.socket = processor.facts.socket ∧
    gpu < pools.gpus.length ∧ ram < pools.rams.length

/-- The combinations are listed by their positions. -/
theorem sortedLT_positions (pools : CandidatePools) :
    (pools.combinations.map Combination.position).SortedLT := by
  have hplaces := pairwise_crossed (fun cpu board => socketFits cpu.candidate board.candidate)
    (Placed.pairwise_all pools.cpus) (Placed.pairwise_all pools.motherboards)
    (Placed.pairwise_all pools.gpus) (Placed.pairwise_all pools.rams)
  rw [← map_places_combinations, List.pairwise_map] at hplaces
  rw [List.sortedLT_iff_pairwise, List.pairwise_map]
  exact hplaces.imp Combination.position_lt_of_lex

/-- The positions of the combinations are those that combine. -/
theorem mem_positions_iff {pools : CandidatePools} {cpu motherboard gpu ram : ℕ} :
    toLex (cpu, toLex (motherboard, toLex (gpu, ram))) ∈
        pools.combinations.map Combination.position ↔
      pools.Combines cpu motherboard gpu ram := by
  constructor
  · intro h
    obtain ⟨combination, hmem, hposition⟩ := List.mem_map.mp h
    cases hposition
    have hoffers := offers_of_mem hmem
    have hgpu := List.getElem?_eq_some_iff.mp (Placed.mem_all.mp hoffers.gpu)
    have hram := List.getElem?_eq_some_iff.mp (Placed.mem_all.mp hoffers.ram)
    exact ⟨_, _, Placed.mem_all.mp hoffers.cpu, Placed.mem_all.mp hoffers.motherboard,
      hoffers.socket, hgpu.1, hram.1⟩
  · rintro ⟨processor, board, hcpu, hboard, hsocket, hgpu, hram⟩
    have hoffers : pools.Offers ⟨0, ⟨cpu, processor⟩, ⟨motherboard, board⟩, ⟨gpu, pools.gpus[gpu]⟩,
        ⟨ram, pools.rams[ram]⟩⟩ :=
      ⟨Placed.mem_all.mpr hcpu, Placed.mem_all.mpr hboard,
        Placed.mem_all.mpr (List.getElem?_eq_getElem hgpu),
        Placed.mem_all.mpr (List.getElem?_eq_getElem hram), hsocket⟩
    obtain ⟨ordinal, hmem⟩ := exists_ordinal_of_offers hoffers
    exact List.mem_map_of_mem hmem

/-- **The combinations are enumerated.**  A quadruple of positions is listed
    once if it combines, and else not at all; a listed combination has the
    candidates that stand at its positions.  The list goes up in the
    lexicographic order of the positions, the ordinals number it from zero, and
    it is as long as there are pairs of a processor and a board with one socket,
    times the graphics cards, times the memory kits. -/
theorem combinations_enumerated (pools : CandidatePools) :
    (∀ cpu motherboard gpu ram : ℕ,
      ((pools.combinations.map Combination.position).count
        (toLex (cpu, toLex (motherboard, toLex (gpu, ram)))) = 1 ↔
          pools.Combines cpu motherboard gpu ram) ∧
      ((pools.combinations.map Combination.position).count
        (toLex (cpu, toLex (motherboard, toLex (gpu, ram)))) = 0 ↔
          ¬ pools.Combines cpu motherboard gpu ram)) ∧
    (∀ combination ∈ pools.combinations, pools.Offers combination) ∧
    (pools.combinations.map Combination.position).SortedLT ∧
    pools.combinations.map Combination.ordinal = List.range pools.combinations.length ∧
    (pools.combinations.map Combination.ordinal).Nodup ∧
    pools.combinations.length =
      (pools.cpus ×ˢ pools.motherboards).countP
          (fun pair => pair.2.facts.socket == pair.1.facts.socket) *
        pools.gpus.length * pools.rams.length := by
  have hnodup := pools.sortedLT_positions.nodup
  refine ⟨fun cpu motherboard gpu ram => ⟨?_, ?_⟩, fun combination => offers_of_mem,
    pools.sortedLT_positions, pools.map_ordinal_combinations, pools.nodup_ordinals, ?_⟩
  · rw [← mem_positions_iff]
    constructor
    · intro hcount
      exact List.count_pos_iff.mp (by rw [hcount]; exact Nat.one_pos)
    · exact List.count_eq_one_of_mem hnodup
  · rw [List.count_eq_zero, mem_positions_iff]
  · have hcandidates := congrArg List.length (map_candidates_combinations pools)
    rw [List.length_map, length_crossed] at hcandidates
    exact hcandidates

end CandidatePools

end PcAssembly
