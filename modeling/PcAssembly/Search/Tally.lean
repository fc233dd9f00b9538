import PcAssembly.Search.Evaluation

/-! # Counting and choosing

    A search keeps a tally: the best build so far and how many combinations
    were of each kind.  A tally takes in evaluations one by one, and two
    tallies can be put together; the better build wins, and of builds with
    the same score the one that comes first. -/

namespace PcAssembly

namespace ChosenBuild

/-- The position of the build among all combinations. -/
def ordinal (build : ChosenBuild) : Nat := build.assembly.combination.ordinal

/-- The first build is strictly better: its score is above the other's in the
    total order of doubles, or equal and it comes earlier. -/
def beats (x y : ChosenBuild) : Bool :=
  let xKey := x.score.orderKey
  let yKey := y.score.orderKey
  yKey < xKey || (xKey = yKey && x.ordinal < y.ordinal)

/-- The better of a build and the best so far, if there is one. -/
def better (best : Option ChosenBuild) (build : ChosenBuild) : ChosenBuild :=
  match best with
  | none => build
  | some current => if build.beats current then build else current

end ChosenBuild

/-- The outcome of the combinations seen so far. -/
structure Tally where
  best : Option ChosenBuild := none
  evaluated : Nat := 0
  overBudget : Nat := 0
  incompatible : Nat := 0
  aborted : Bool := false

namespace Tally

/-- The tally of no combination. -/
def empty : Tally := {}

/-- The tally with a build among those to choose from. -/
def offer (tally : Tally) (build : ChosenBuild) : Tally :=
  { tally with best := some (ChosenBuild.better tally.best build) }

/-- The tally with one more evaluation. -/
def absorb (tally : Tally) : Evaluation → Tally
  | .feasible build => { tally with evaluated := tally.evaluated + 1 }.offer build
  | .overBudget =>
      { tally with
        evaluated := tally.evaluated + 1
        overBudget := tally.overBudget + 1 }
  | .incompatible =>
      { tally with
        evaluated := tally.evaluated + 1
        incompatible := tally.incompatible + 1 }
  | .aborted => { tally with aborted := true }

/-- Two tallies of different combinations as one. -/
def merge (x y : Tally) : Tally :=
  let counted : Tally :=
    { best := x.best
      evaluated := x.evaluated + y.evaluated
      overBudget := x.overBudget + y.overBudget
      incompatible := x.incompatible + y.incompatible
      aborted := x.aborted || y.aborted }
  match y.best with
  | none => counted
  | some build => counted.offer build

/-- The tally of a list of evaluations. -/
def ofEvaluations (evaluations : List Evaluation) : Tally :=
  evaluations.foldl absorb empty

end Tally

/-- What a search has found. -/
structure SearchOutcome where
  best : Option ChosenBuild
  combinations : Nat
  overBudget : Nat
  incompatible : Nat
  aborted : Bool

namespace CandidatePools

/-- Evaluates all combinations.  `calledOff` says of an ordinal whether the
    search has been called off when its turn comes.  None if the price of some
    combination overflows. -/
def evaluations? (pools : CandidatePools) (machine : Machine) (weights : Weights)
    (budget : Decimal) (calledOff : Nat → Bool) : Option (List Evaluation) :=
  pools.combinations.mapM fun combination =>
    if calledOff combination.ordinal then some .aborted
    else Evaluation.of? pools machine weights budget combination

/-- Searches all combinations for the best build within a budget. -/
def search? (pools : CandidatePools) (machine : Machine) (weights : Weights)
    (budget : Decimal) (calledOff : Nat → Bool) : Option SearchOutcome :=
  (pools.evaluations? machine weights budget calledOff).map fun evaluations =>
    let tally := Tally.ofEvaluations evaluations
    { best := tally.best
      combinations := pools.combinations.length
      overBudget := tally.overBudget
      incompatible := tally.incompatible
      aborted := tally.aborted }

end CandidatePools

end PcAssembly
