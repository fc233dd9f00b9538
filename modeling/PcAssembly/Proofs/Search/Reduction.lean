import PcAssembly.Proofs.Search.Order
import Mathlib.Data.List.Forall2
import Mathlib.Data.List.Nodup

/-! # Every division of a search gives the same tally

    A search may be divided: its evaluations are dealt out to groups, every
    group keeps a tally of its own, and the tallies are merged two by two in
    some order, tallies of nothing among them.  The outcome depends neither on
    how the evaluations are dealt out nor on the order of the merges.

    The reason is that a tally says nothing but what can be said of its
    evaluations as a collection: how many there are of each kind, whether one
    was aborted, and which feasible build is the best.  `Tally.Describes`
    states this, `describes_merge` is the step every division is made of, and
    a collection has only one tally that describes it. -/

namespace PcAssembly

namespace Evaluation

/-- The build of a feasible combination. -/
def build? : Evaluation → Option ChosenBuild
  | .feasible build => some build
  | _ => none

/-- The combination is feasible. -/
def isFeasible : Evaluation → Bool
  | .feasible _ => true
  | _ => false

/-- The combination costs too much. -/
def isOverBudget : Evaluation → Bool
  | .overBudget => true
  | _ => false

/-- The combination does not fit together. -/
def isIncompatible : Evaluation → Bool
  | .incompatible => true
  | _ => false

/-- The combination was not looked at. -/
def isAborted : Evaluation → Bool
  | .aborted => true
  | _ => false

/-- The feasible builds among some evaluations. -/
def builds (evaluations : List Evaluation) : List ChosenBuild :=
  evaluations.filterMap build?

/-- No two feasible builds have the same ordinal. -/
def DistinctOrdinals (evaluations : List Evaluation) : Prop :=
  ((builds evaluations).map ChosenBuild.ordinal).Nodup

/-- The same search, in which some combinations were not looked at. -/
def Interrupts (seen complete : List Evaluation) : Prop :=
  List.Forall₂ (fun evaluation whole => evaluation = .aborted ∨ evaluation = whole) seen complete

/-- Only what is feasible has a build. -/
theorem build?_eq_some_iff {evaluation : Evaluation} {build : ChosenBuild} :
    evaluation.build? = some build ↔ evaluation = .feasible build := by
  cases evaluation <;> simp [build?]

/-- The builds are those of the feasible evaluations. -/
theorem mem_builds {evaluations : List Evaluation} {build : ChosenBuild} :
    build ∈ builds evaluations ↔ .feasible build ∈ evaluations := by
  rw [builds, List.mem_filterMap]
  constructor
  · rintro ⟨evaluation, hmem, hbuild⟩
    exact build?_eq_some_iff.mp hbuild ▸ hmem
  · intro hmem
    exact ⟨.feasible build, hmem, rfl⟩

/-- The builds come in the order of the evaluations. -/
theorem builds_append (xs ys : List Evaluation) : builds (xs ++ ys) = builds xs ++ builds ys :=
  List.filterMap_append

/-- An evaluation is aborted if it is the aborted one. -/
theorem isAborted_iff {evaluation : Evaluation} :
    evaluation.isAborted = true ↔ evaluation = .aborted := by
  cases evaluation <;> simp [isAborted]

/-- In another order the ordinals are as different as before. -/
theorem DistinctOrdinals.perm {xs ys : List Evaluation} (hperm : xs.Perm ys)
    (h : DistinctOrdinals xs) : DistinctOrdinals ys :=
  ((hperm.filterMap build?).map ChosenBuild.ordinal).nodup_iff.mp h

/-- Ordinals are different if they are in both parts and between them. -/
theorem distinctOrdinals_append {xs ys : List Evaluation} :
    DistinctOrdinals (xs ++ ys) ↔ DistinctOrdinals xs ∧ DistinctOrdinals ys ∧
      ∀ a ∈ builds xs, ∀ b ∈ builds ys, a.ordinal ≠ b.ordinal := by
  simp only [DistinctOrdinals, builds_append, List.map_append, List.nodup_append,
    List.mem_map, forall_exists_index, and_imp, forall_apply_eq_imp_iff₂]

/-- A search in which no combination was passed over is the complete search. -/
theorem Interrupts.eq_of_not_aborted {seen complete : List Evaluation}
    (h : Interrupts seen complete) (hseen : Evaluation.aborted ∉ seen) : seen = complete := by
  induction h with
  | nil => rfl
  | @cons evaluation whole seen complete hhead _ ih =>
      have hne : evaluation ≠ .aborted := fun heq => hseen (heq ▸ List.mem_cons_self)
      have htail : Evaluation.aborted ∉ seen := fun hmem => hseen (List.mem_cons_of_mem _ hmem)
      rcases hhead with haborted | hsame
      · exact absurd haborted hne
      · rw [hsame, ih htail]

end Evaluation

namespace Tally

open Evaluation (builds DistinctOrdinals)

/-- What a tally says about the evaluations it has taken in. -/
structure Describes (tally : Tally) (evaluations : List Evaluation) : Prop where
  best : ChosenBuild.IsBestOf (builds evaluations) tally.best
  evaluated : tally.evaluated = evaluations.countP fun evaluation => !evaluation.isAborted
  overBudget : tally.overBudget = evaluations.countP Evaluation.isOverBudget
  incompatible : tally.incompatible = evaluations.countP Evaluation.isIncompatible
  aborted : tally.aborted = evaluations.any Evaluation.isAborted

/-- The empty tally describes no evaluation. -/
theorem describes_empty : empty.Describes [] where
  best := ChosenBuild.isBestOf_nil
  evaluated := rfl
  overBudget := rfl
  incompatible := rfl
  aborted := rfl

/-- The tally of one evaluation describes it. -/
theorem describes_ofEvaluations_single (evaluation : Evaluation) :
    (ofEvaluations [evaluation]).Describes [evaluation] := by
  cases evaluation with
  | feasible build => exact ⟨ChosenBuild.isBestOf_singleton build, rfl, rfl, rfl, rfl⟩
  | overBudget => exact ⟨ChosenBuild.isBestOf_nil, rfl, rfl, rfl, rfl⟩
  | incompatible => exact ⟨ChosenBuild.isBestOf_nil, rfl, rfl, rfl, rfl⟩
  | aborted => exact ⟨ChosenBuild.isBestOf_nil, rfl, rfl, rfl, rfl⟩

/-- The best of two merged tallies is the better of their best. -/
theorem best_merge (x y : Tally) : (x.merge y).best = ChosenBuild.betterOf x.best y.best := by
  rw [merge]
  cases y.best <;> rfl

/-- The counts of two merged tallies are added. -/
theorem merge_counts (x y : Tally) :
    (x.merge y).evaluated = x.evaluated + y.evaluated ∧
      (x.merge y).overBudget = x.overBudget + y.overBudget ∧
      (x.merge y).incompatible = x.incompatible + y.incompatible ∧
      (x.merge y).aborted = (x.aborted || y.aborted) := by
  rw [merge]
  cases y.best <;> exact ⟨rfl, rfl, rfl, rfl⟩

/-- Taking in an evaluation is merging with the tally of it alone. -/
theorem absorb_eq_merge (tally : Tally) (evaluation : Evaluation) :
    tally.absorb evaluation = tally.merge (ofEvaluations [evaluation]) := by
  cases evaluation <;> simp [absorb, merge, ofEvaluations, offer, empty, ChosenBuild.better]

/-- **Merging joins what two tallies say**, if no ordinal is on both sides. -/
theorem describes_merge {x y : Tally} {xs ys : List Evaluation} (hx : x.Describes xs)
    (hy : y.Describes ys)
    (hdistinct : ∀ a ∈ builds xs, ∀ b ∈ builds ys, a.ordinal ≠ b.ordinal) :
    (x.merge y).Describes (xs ++ ys) := by
  obtain ⟨hevaluated, hoverBudget, hincompatible, haborted⟩ := merge_counts x y
  constructor
  · rw [best_merge, Evaluation.builds_append]
    exact hx.best.append hy.best hdistinct
  · rw [hevaluated, List.countP_append, hx.evaluated, hy.evaluated]
  · rw [hoverBudget, List.countP_append, hx.overBudget, hy.overBudget]
  · rw [hincompatible, List.countP_append, hx.incompatible, hy.incompatible]
  · rw [haborted, List.any_append, hx.aborted, hy.aborted]

/-- A tally that takes in an evaluation describes it too. -/
theorem describes_absorb {tally : Tally} {seen : List Evaluation} {evaluation : Evaluation}
    (h : tally.Describes seen) (hdistinct : DistinctOrdinals (seen ++ [evaluation])) :
    (tally.absorb evaluation).Describes (seen ++ [evaluation]) := by
  rw [absorb_eq_merge]
  exact describes_merge h (describes_ofEvaluations_single evaluation)
    (Evaluation.distinctOrdinals_append.mp hdistinct).2.2

/-- A scan describes what it has seen, whatever it started from. -/
theorem describes_foldl (rest : List Evaluation) :
    ∀ (tally : Tally) (seen : List Evaluation), tally.Describes seen →
      DistinctOrdinals (seen ++ rest) → (rest.foldl absorb tally).Describes (seen ++ rest) := by
  induction rest with
  | nil =>
      intro tally seen h _
      rw [List.append_nil]
      exact h
  | cons evaluation rest ih =>
      intro tally seen h hdistinct
      -- the head moves from what is to come to what has been seen
      rw [List.foldl_cons]
      rw [List.append_cons] at hdistinct ⊢
      have hseen : DistinctOrdinals (seen ++ [evaluation]) :=
        (Evaluation.distinctOrdinals_append.mp hdistinct).1
      exact ih _ _ (describes_absorb h hseen) hdistinct

/-- The tally of evaluations describes them. -/
theorem describes_ofEvaluations {evaluations : List Evaluation}
    (hdistinct : DistinctOrdinals evaluations) :
    (ofEvaluations evaluations).Describes evaluations :=
  describes_foldl evaluations empty [] describes_empty hdistinct

/-- What a tally says does not depend on the order of the evaluations. -/
theorem Describes.perm {tally : Tally} {xs ys : List Evaluation} (hperm : xs.Perm ys)
    (h : tally.Describes xs) : tally.Describes ys where
  best := h.best.perm (hperm.filterMap _)
  evaluated := h.evaluated.trans (hperm.countP_eq _)
  overBudget := h.overBudget.trans (hperm.countP_eq _)
  incompatible := h.incompatible.trans (hperm.countP_eq _)
  aborted := h.aborted.trans hperm.any_eq

/-- A collection of evaluations has one tally. -/
theorem Describes.unique {x y : Tally} {evaluations : List Evaluation}
    (hx : x.Describes evaluations) (hy : y.Describes evaluations) : x = y := by
  obtain ⟨xBest, xEvaluated, xOver, xIncompatible, xAborted⟩ := x
  obtain ⟨yBest, yEvaluated, yOver, yIncompatible, yAborted⟩ := y
  have hbest : xBest = yBest := hx.best.unique hy.best
  have hevaluated : xEvaluated = yEvaluated := hx.evaluated.trans hy.evaluated.symm
  have hover : xOver = yOver := hx.overBudget.trans hy.overBudget.symm
  have hincompatible : xIncompatible = yIncompatible :=
    hx.incompatible.trans hy.incompatible.symm
  have haborted : xAborted = yAborted := hx.aborted.trans hy.aborted.symm
  rw [hbest, hevaluated, hover, hincompatible, haborted]

/-- A tally is aborted if some evaluation was. -/
theorem Describes.aborted_iff {tally : Tally} {evaluations : List Evaluation}
    (h : tally.Describes evaluations) :
    tally.aborted = true ↔ Evaluation.aborted ∈ evaluations := by
  rw [h.aborted, List.any_eq_true]
  constructor
  · rintro ⟨evaluation, hmem, haborted⟩
    exact Evaluation.isAborted_iff.mp haborted ▸ hmem
  · intro hmem
    exact ⟨.aborted, hmem, rfl⟩

end Tally

/-! ## Divisions -/

/-- A way to carry out a search: groups of evaluations, each scanned on its
    own, whose tallies are merged along a tree.  A worker may have nothing to
    do. -/
inductive Division where
  | idle
  | group (evaluations : List Evaluation)
  | joined (left right : Division)

namespace Division

/-- All evaluations that are dealt out. -/
def evaluations : Division → List Evaluation
  | idle => []
  | group evaluations => evaluations
  | joined left right => left.evaluations ++ right.evaluations

/-- The tally that the division ends with. -/
def tally : Division → Tally
  | idle => .empty
  | group evaluations => .ofEvaluations evaluations
  | joined left right => left.tally.merge right.tally

/-- The invariant of a division: every tally of the tree describes the
    evaluations below it. -/
theorem describes (division : Division)
    (hdistinct : Evaluation.DistinctOrdinals division.evaluations) :
    division.tally.Describes division.evaluations := by
  induction division with
  | idle => exact Tally.describes_empty
  | group evaluations => exact Tally.describes_ofEvaluations hdistinct
  | joined left right ihLeft ihRight =>
      -- distinct ordinals stay distinct within each side and from one side to the other
      obtain ⟨hleft, hright, happart⟩ := Evaluation.distinctOrdinals_append.mp hdistinct
      exact Tally.describes_merge (ihLeft hleft) (ihRight hright) happart

/-- Divisions of the same evaluations end with the same tally. -/
theorem tally_eq {division : Division} {evaluations : List Evaluation}
    (hdistinct : Evaluation.DistinctOrdinals evaluations)
    (hperm : division.evaluations.Perm evaluations) :
    division.tally = Tally.ofEvaluations evaluations :=
  ((division.describes (hdistinct.perm hperm.symm)).perm hperm).unique
    (Tally.describes_ofEvaluations hdistinct)

/-- **A divided search ends like a scan.**  However evaluations with distinct
    ordinals are dealt out to groups, in whatever order each group takes them
    in, and along whatever tree the tallies are merged, the tally is that of
    one scan from the first to the last.  It counts the evaluations of each
    kind, says whether one was aborted, and has the best of the feasible
    builds; so without an aborted one it is the tally of the complete search. -/
theorem tally_of_division (evaluations : List Evaluation)
    (hdistinct : Evaluation.DistinctOrdinals evaluations) :
    (∀ division : Division, division.evaluations.Perm evaluations →
        division.tally = Tally.ofEvaluations evaluations) ∧
      (Tally.ofEvaluations evaluations).evaluated =
        (evaluations.countP fun evaluation => !evaluation.isAborted) ∧
      (Tally.ofEvaluations evaluations).overBudget =
        evaluations.countP Evaluation.isOverBudget ∧
      (Tally.ofEvaluations evaluations).incompatible =
        evaluations.countP Evaluation.isIncompatible ∧
      ((Tally.ofEvaluations evaluations).aborted = true ↔ Evaluation.aborted ∈ evaluations) ∧
      ChosenBuild.IsBestOf (Evaluation.builds evaluations)
        (Tally.ofEvaluations evaluations).best ∧
      (∀ complete, Evaluation.Interrupts evaluations complete →
        (Tally.ofEvaluations evaluations).aborted = false →
          Tally.ofEvaluations evaluations = Tally.ofEvaluations complete) := by
  have hscan := Tally.describes_ofEvaluations hdistinct
  refine ⟨fun division hperm => tally_eq hdistinct hperm, hscan.evaluated, hscan.overBudget,
    hscan.incompatible, hscan.aborted_iff, hscan.best, ?_⟩
  intro complete hinterrupts hfinished
  have habsent : Evaluation.aborted ∉ evaluations := by
    intro hmem
    rw [hscan.aborted_iff.mpr hmem] at hfinished
    exact nomatch hfinished
  rw [hinterrupts.eq_of_not_aborted habsent]

end Division

/-- A candidate of some product, for a slot with these facts. -/
def Candidate.sample {α : Type} (id : Int64) (price : Decimal) (facts : α) (score : Float) :
    Candidate α where
  item := { productId := id, price, stock := 1, componentTag := "" }
  componentId := id
  facts
  score := .ofFloat score

/-- A build of unnamed parts with this ordinal and score. -/
def ChosenBuild.sample (ordinal : Nat) (score : Float) : ChosenBuild where
  assembly := {
    combination := {
      ordinal
      cpu := ⟨0, .sample 1 .zero default 1⟩
      motherboard := ⟨0, .sample 2 .zero default 1⟩
      gpu := ⟨0, .sample 3 .zero default 1⟩
      ram := ⟨0, .sample 4 .zero default 1⟩ }
    psu := .sample 5 .zero default 1
    chassis := .sample 6 .zero default 1
    cooler := none
    storage := [] }
  total := .zero
  score := .ofFloat score

/-- Evaluations of every kind, two feasible builds with the same score among
    them. -/
def Evaluation.samples : List Evaluation :=
  [.feasible (.sample 0 1), .overBudget, .feasible (.sample 1 2), .aborted, .incompatible,
   .feasible (.sample 2 2)]

/-- Three groups and an idle worker that go through the samples backwards: of
    the two best builds the earlier one is found. -/
theorem Division.tally_of_division_backwards :
    Evaluation.DistinctOrdinals Evaluation.samples ∧
      (Division.joined
        (.joined .idle (.group [.feasible (.sample 2 2), .incompatible]))
        (.joined (.group [.aborted, .feasible (.sample 1 2)])
          (.group [.overBudget, .feasible (.sample 0 1)]))).tally =
        Tally.ofEvaluations Evaluation.samples ∧
      (Tally.ofEvaluations Evaluation.samples).best.map ChosenBuild.ordinal = some 1 := by
  have hdistinct : Evaluation.DistinctOrdinals Evaluation.samples := by
    rw [Evaluation.DistinctOrdinals]
    decide
  exact ⟨hdistinct,
    (tally_of_division Evaluation.samples hdistinct).1 _ (List.reverse_perm Evaluation.samples),
    by decide +kernel⟩

end PcAssembly
