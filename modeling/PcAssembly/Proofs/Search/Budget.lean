import PcAssembly.Proofs.Decimal.Bill
import PcAssembly.Proofs.Search.Optimum

/-! # How exact the budget test is

    A build is over the budget if its total is, and the total is what the bill
    of its parts is added up to.  Prices come unchecked from the catalog, so
    an addition may round and may overflow.  Here it is settled when the test
    is that of the exact sum of the prices, how far a chosen build can exceed
    the budget, and what a price does that no total can hold. -/

namespace PcAssembly

namespace Assembly

/-- The prices of the parts of a build. -/
def prices (assembly : Assembly) : List Decimal :=
  [assembly.cpu.price, assembly.motherboard.price, assembly.gpu.price, assembly.ram.price,
    assembly.psu.price, assembly.chassis.price]
    ++ assembly.cooler.toList.map Candidate.price ++ assembly.storage.map Candidate.price

/-- The exact sum of the prices. -/
def exactTotal (assembly : Assembly) : ℚ :=
  (assembly.prices.map Decimal.value).sum

/-- The exact sum of the prices without their signs. -/
def magnitude (assembly : Assembly) : ℚ :=
  (assembly.prices.map fun price => |price.value|).sum

/-- The bill of a build, in the order in which its prices are added. -/
def bill (assembly : Assembly) : Bill :=
  let searched := (Bill.price assembly.cpu.price).followedBy
    [assembly.motherboard.price, assembly.gpu.price, assembly.ram.price]
  let housed := Bill.both searched
    (.both (.price assembly.psu.price) (.price assembly.chassis.price))
  let cooled := Bill.both housed
    (.price ((assembly.cooler.map Candidate.price).getD .zero))
  .both cooled ((Bill.price .zero).followedBy (assembly.storage.map Candidate.price))

/-- The price of a build is the total of its bill. -/
theorem total?_bill (assembly : Assembly) : assembly.bill.total? = assembly.total? := by
  rw [bill, total?]
  simp only [Bill.total?, Bill.total?_followedBy, Decimal.sum?, Option.bind_eq_bind,
    Option.bind_some, List.foldlM_cons, List.foldlM_nil, Option.bind_assoc, Option.pure_def,
    Option.bind_fun_some]

theorem due_bill (assembly : Assembly) : assembly.bill.due = assembly.exactTotal := by
  rw [bill, exactTotal, prices]
  cases assembly.cooler <;> simp [Bill.due, Bill.due_followedBy] <;> ring

theorem magnitude_bill (assembly : Assembly) : assembly.bill.magnitude = assembly.magnitude := by
  rw [bill, magnitude, prices]
  cases assembly.cooler <;> simp [Bill.magnitude, Bill.magnitude_followedBy] <;> ring

theorem mem_prices_bill {assembly : Assembly} {amount : Decimal}
    (h : amount ∈ assembly.bill.prices) : amount ∈ assembly.prices ∨ amount = .zero := by
  rw [bill] at h
  rw [prices]
  cases hcooler : assembly.cooler <;>
    simp only [hcooler, Bill.prices, Bill.prices_followedBy, Option.map_none, Option.map_some,
      Option.getD_none, Option.getD_some, Option.toList, List.map_nil, List.map_cons,
      List.mem_append, List.mem_cons, List.not_mem_nil, or_false] at h ⊢ <;>
    tauto

theorem depth_bill (assembly : Assembly) :
    assembly.bill.depth = max 5 assembly.storage.length + 1 := by
  simp [bill, Bill.depth, Bill.depth_followedBy]

end Assembly

/-- The least of the amounts that are not below a number. -/
structure Decimal.IsLeastFrom (x : Decimal) (number : ℚ) : Prop where
  le : number ≤ x.value
  least : ∀ y : Decimal, number ≤ y.value → x.value ≤ y.value

/-- No budget lies between a number and the least amount that is not below
    it, and of no other amount this is true. -/
theorem Decimal.isLeastFrom_iff {x : Decimal} {number : ℚ} :
    x.IsLeastFrom number ↔
      ∀ budget : Decimal, budget.value < x.value ↔ budget.value < number := by
  constructor
  · intro h budget
    constructor
    · intro hbelow
      exact not_le.mp fun hle => not_le.mpr hbelow (h.least budget hle)
    · intro hbelow
      exact lt_of_lt_of_le hbelow h.le
  · intro h
    -- `x` itself is a budget, and so is every other amount from the number on
    refine ⟨not_lt.mp fun hbelow => lt_irrefl _ ((h x).mpr hbelow), fun y hle => ?_⟩
    exact not_lt.mp fun hbelow => not_lt.mpr hle ((h y).mp hbelow)

theorem Decimal.isLeastFrom_of_eq {x : Decimal} {number : ℚ} (h : x.value = number) :
    x.IsLeastFrom number :=
  isLeastFrom_iff.mpr fun budget => by rw [h]

namespace Evaluation

variable {pools : CandidatePools} {machine : Machine} {weights : Weights}
  {combination : Combination} {assembly : Assembly}

/-- There is no verdict exactly if some addition overflows; the budget does
    not matter. -/
theorem of?_eq_none_iff_overflows (hcompletes : assembly.Completes pools combination)
    (budget : Decimal) :
    of? pools machine weights budget combination = none ↔ assembly.bill.Overflows := by
  rw [of?_of_completes hcompletes, Option.map_eq_none_iff, ← assembly.total?_bill,
    Bill.total?_eq_none_iff]

/-- Whatever the budget, there is a verdict, and it is that of the exact sum
    of the prices. -/
def TestsExactly (pools : CandidatePools) (machine : Machine) (weights : Weights)
    (combination : Combination) (assembly : Assembly) : Prop :=
  ∀ budget : Decimal, ∃ evaluation, of? pools machine weights budget combination = some evaluation ∧
    (evaluation = .overBudget ↔ budget.value < assembly.exactTotal)

/-- **The budget test is exact** if and only if the total is the least amount
    that is not below the exact sum. -/
theorem testsExactly_iff (hcompletes : assembly.Completes pools combination) :
    TestsExactly pools machine weights combination assembly ↔
      ∃ total, assembly.total? = some total ∧ total.IsLeastFrom assembly.exactTotal := by
  rw [TestsExactly]
  simp only [of?_of_completes hcompletes, Option.map_eq_some_iff, Decimal.isLeastFrom_iff]
  constructor
  · intro h
    -- any budget shows that there is a total, and the total is the same for all of them
    obtain ⟨_, ⟨total, htotal, -⟩, -⟩ := h .zero
    refine ⟨total, htotal, fun budget => ?_⟩
    obtain ⟨_, ⟨other, hother, rfl⟩, hverdict⟩ := h budget
    obtain rfl : other = total := Option.some.inj (hother.symm.trans htotal)
    rw [verdict_eq_overBudget_iff, Decimal.lt_iff] at hverdict
    exact hverdict
  · rintro ⟨total, htotal, hleast⟩ budget
    refine ⟨_, ⟨total, htotal, rfl⟩, ?_⟩
    rw [verdict_eq_overBudget_iff, Decimal.lt_iff]
    exact hleast budget

/-- Prices with few places that are small together are tested exactly. -/
theorem testsExactly_of_fits (hcompletes : assembly.Completes pools combination) {places : Nat}
    (hplaces : ∀ price ∈ assembly.prices, price.scale ≤ places)
    (hfits : assembly.magnitude * 10 ^ places < Decimal.overflowBound) :
    TestsExactly pools machine weights combination assembly := by
  have hbill : ∀ amount ∈ assembly.bill.prices, amount.scale ≤ places := by
    intro amount hamount
    rcases Assembly.mem_prices_bill hamount with hmem | rfl
    · exact hplaces amount hmem
    · exact Nat.zero_le places
  rw [← assembly.magnitude_bill] at hfits
  obtain ⟨total, htotal, hvalue, -⟩ := Bill.exists_total_of_fits hbill hfits
  rw [assembly.total?_bill] at htotal
  rw [assembly.due_bill] at hvalue
  exact (testsExactly_iff hcompletes).mpr ⟨total, htotal, Decimal.isLeastFrom_of_eq hvalue⟩

/-- A feasible build exceeds the budget by little: less than one part in ten
    to the twenty-seventh of its prices without their signs. -/
theorem exactTotal_le_of_feasible {budget : Decimal} {build : ChosenBuild}
    (h : of? pools machine weights budget combination = some (.feasible build)) :
    build.assembly.exactTotal ≤ budget.value + build.assembly.magnitude / 10 ^ 27 := by
  obtain ⟨hcompletes, htotal, hwithin, -, -⟩ := of?_eq_feasible_iff.mp h
  have hdrives : build.assembly.storage.length ≤ storagePicks := by
    rw [hcompletes.storage]
    exact List.length_take_le _ _
  have hdepth : build.assembly.bill.depth = 6 := by
    rw [build.assembly.depth_bill, max_eq_left (le_trans hdrives (by decide))]
  rw [← build.assembly.total?_bill] at htotal
  have herror := Bill.abs_total_sub_due_le htotal
  rw [hdepth, build.assembly.due_bill, build.assembly.magnitude_bill] at herror
  have hmagnitude : 0 ≤ build.assembly.magnitude := by
    rw [← build.assembly.magnitude_bill]
    exact build.assembly.bill.magnitude_nonneg
  -- six additions in a row, each off by one part in ten to the twenty-eighth
  have hdrift : Bill.drift 6 ≤ 1 / 10 ^ 27 := by norm_num [Bill.drift]
  have hslack := mul_le_mul_of_nonneg_right hdrift hmagnitude
  have hvalue := Decimal.lt_eq_false_iff.mp hwithin
  linarith [neg_le_of_abs_le herror]

end Evaluation

namespace CandidatePools

open Evaluation (TestsExactly)

variable {pools : CandidatePools} {machine : Machine} {weights : Weights}

/-- **One price that overflows stops the whole search**, and nothing else
    does. -/
theorem search?_eq_none_iff {budget : Decimal} :
    pools.search? machine weights budget (fun _ => false) = none ↔
      ∃ combination ∈ pools.combinations, ∃ assembly : Assembly,
        assembly.Completes pools combination ∧ assembly.bill.Overflows := by
  rw [Option.eq_none_iff_forall_ne_some, ← not_exists, exists_search?_iff]
  simp only [← Bill.total?_eq_none_iff, Assembly.total?_bill]
  push Not
  rfl

/-- The best build of a search exceeds the budget by little. -/
theorem exactTotal_le_of_best {budget : Decimal} {outcome : SearchOutcome} {build : ChosenBuild}
    (hsearch : pools.search? machine weights budget (fun _ => false) = some outcome)
    (hbest : outcome.best = some build) :
    build.assembly.exactTotal ≤ budget.value + build.assembly.magnitude / 10 ^ 27 := by
  obtain ⟨combination, hoptimum⟩ := (best_eq_some_iff hsearch).mp hbest
  exact Evaluation.exactTotal_le_of_feasible hoptimum.feasible

/-- **What the budget test is worth.**  With a supply and a chassis to choose
    from, every combination amounts to a build.  It has no verdict exactly if
    some addition of its bill overflows, whatever the budget.  Its verdicts
    are those of the exact sum of its prices, for all budgets, exactly if its
    total is the least amount that is not below this sum; so it is if the
    prices have so few places and are so small that every sum fits.  A search
    has no outcome exactly if some combination has no verdict, and the build
    it finds exceeds the budget by one part in ten to the twenty-seventh of
    its prices at most. -/
theorem budget_test (pools : CandidatePools) (machine : Machine) (weights : Weights)
    (hpsus : pools.psus ≠ []) (hchassis : pools.chassis ≠ []) :
    (∀ combination, ∃ assembly : Assembly, assembly.Completes pools combination ∧
      (∀ budget, Evaluation.of? pools machine weights budget combination = none ↔
        assembly.bill.Overflows) ∧
      (TestsExactly pools machine weights combination assembly ↔
        ∃ total, assembly.total? = some total ∧ total.IsLeastFrom assembly.exactTotal) ∧
      (∀ places, (∀ price ∈ assembly.prices, price.scale ≤ places) →
        assembly.magnitude * 10 ^ places < Decimal.overflowBound →
          TestsExactly pools machine weights combination assembly)) ∧
    (∀ budget, pools.search? machine weights budget (fun _ => false) = none ↔
      ∃ combination ∈ pools.combinations, ∃ assembly : Assembly,
        assembly.Completes pools combination ∧ assembly.bill.Overflows) ∧
    (∀ budget outcome build, pools.search? machine weights budget (fun _ => false) = some outcome →
      outcome.best = some build →
        build.assembly.exactTotal ≤ budget.value + build.assembly.magnitude / 10 ^ 27) := by
  refine ⟨fun combination => ?_, fun budget => search?_eq_none_iff,
    fun budget outcome build hsearch hbest => exactTotal_le_of_best hsearch hbest⟩
  obtain ⟨assembly, hcompletes⟩ := Assembly.exists_completes combination hpsus hchassis
  refine ⟨assembly, hcompletes, Evaluation.of?_eq_none_iff_overflows hcompletes,
    Evaluation.testsExactly_iff hcompletes, ?_⟩
  intro places hplaces hfits
  exact Evaluation.testsExactly_of_fits hcompletes hplaces hfits

/-- The samples with one memory kit and two graphics cards, the second of
    which has the largest price there is. -/
def absurdSamples : CandidatePools :=
  { samples with
    rams := samples.rams.take 1
    gpus :=
      [.sample 30 (.ofInt64 500) ⟨300, 2, 200, 1500⟩ 3,
       .sample 31 ((Decimal.ofParts? 79228162514264337593543950335 0).getD .zero)
        ⟨300, 2, 200, 1500⟩ 3] }

/-- A processor for ten, a board for the smallest price there is, and nothing
    else that costs anything. -/
def fineSamples : CandidatePools where
  cpus := [.sample 1 (.ofInt64 10) ⟨"AM5", 65, 600⟩ 2]
  motherboards :=
    [.sample 10 ((Decimal.ofParts? 1 28).getD .zero) ⟨"AM5", "DDR5", 6000, 2, 2, "ATX"⟩ 1]
  rams := [.sample 20 .zero ⟨"DDR5", 5600, 100⟩ 1]
  gpus := [.sample 30 .zero ⟨300, 2, 200, 1500⟩ 3]
  psus := [.sample 40 .zero ⟨750, "ATX"⟩ 1]
  chassis := [.sample 50 .zero ⟨340, 160, "ATX"⟩ 1]

/-- The absurd price makes a bill overflow, though the other graphics card
    makes a build. -/
theorem budget_test_absurd :
    absurdSamples.psus ≠ [] ∧ absurdSamples.chassis ≠ [] ∧
      ∃ combination ∈ absurdSamples.combinations, ∃ assembly : Assembly,
        assembly.Completes absurdSamples combination ∧ assembly.bill.Overflows := by
  have hpsus : absurdSamples.psus ≠ [] := List.cons_ne_nil _ _
  have hchassis : absurdSamples.chassis ≠ [] := List.cons_ne_nil _ _
  have hnone : absurdSamples.search? .usual .base (.ofInt64 2000) (fun _ => false) = none := by
    rw [← Option.isNone_iff_eq_none]
    decide +kernel
  exact ⟨hpsus, hchassis,
    ((budget_test absurdSamples .usual .base hpsus hchassis).2.1 (.ofInt64 2000)).mp hnone⟩

/-- The verdict on a combination is not always there, and it is not always
    that of the exact sum: a build can be feasible that costs more than the
    budget. -/
theorem not_exact_budget_test :
    (∃ combination ∈ absurdSamples.combinations,
      Evaluation.of? absurdSamples .usual .base (.ofInt64 2000) combination = none) ∧
    absurdSamples.search? .usual .base (.ofInt64 2000) (fun _ => false) = none ∧
    ∃ combination ∈ fineSamples.combinations, ∃ build,
      Evaluation.of? fineSamples .usual .base (.ofInt64 10) combination = some (.feasible build) ∧
        (Decimal.ofInt64 10).value < build.assembly.exactTotal := by
  refine ⟨?_, ?_, ?_⟩
  · have hany : absurdSamples.combinations.any (fun combination =>
        (Evaluation.of? absurdSamples .usual .base (.ofInt64 2000) combination).isNone) = true := by
      decide +kernel
    obtain ⟨combination, hmem, hnone⟩ := List.any_eq_true.mp hany
    exact ⟨combination, hmem, Option.isNone_iff_eq_none.mp hnone⟩
  · rw [← Option.isNone_iff_eq_none]
    decide +kernel
  · have hany : fineSamples.combinations.any (fun combination =>
        ((Evaluation.of? fineSamples .usual .base (.ofInt64 10) combination).bind
          Evaluation.build?).any fun build =>
            (Decimal.ofInt64 10).value < build.assembly.exactTotal) = true := by
      decide +kernel
    obtain ⟨combination, hmem, hverdict⟩ := List.any_eq_true.mp hany
    obtain ⟨build, hbuild, hexceeds⟩ := (Option.any_eq_true _ _).mp hverdict
    obtain ⟨evaluation, hsome, hfeasible⟩ := Option.bind_eq_some_iff.mp hbuild
    rw [Evaluation.build?_eq_some_iff.mp hfeasible] at hsome
    exact ⟨combination, hmem, build, hsome, of_decide_eq_true hexceeds⟩

end CandidatePools

end PcAssembly
