import Mathlib.Data.List.Sort
import PcAssembly.Catalog.Candidate

/-! # How candidates are ranked

    Candidates are sorted by score, best first, and equal ones keep their order.
    The library's sort divides lists and merges them; what comes out is the same
    as when candidates are inserted one by one, the last one first, each before
    those it is not worse than. -/

namespace PcAssembly

section Sorting

variable {α : Type} {le : α → α → Bool}

/-- An element is inserted behind those it does not come before. -/
private theorem orderedInsert_between {a : α} {before after : List α}
    (hbefore : ∀ b ∈ before, (!le a b) = true) (hafter : ∀ b ∈ after, le a b = true) :
    (before ++ after).orderedInsert (fun a b => le a b = true) a = before ++ a :: after := by
  have hskip : ∀ b ∈ before, decide (¬ le a b = true) = true := fun b hb => by
    simpa using hbefore b hb
  rw [List.orderedInsert_eq_take_drop, List.takeWhile_append_of_pos hskip,
    List.dropWhile_append_of_pos hskip]
  cases after with
  | nil => simp
  | cons b after => simp [hafter b List.mem_cons_self]

variable (htrans : ∀ a b c, le a b = true → le b c = true → le a c = true)
  (htotal : ∀ a b, (le a b || le b a) = true)

include htrans htotal

/-- To sort a list with one more element is to insert it into the sorted list,
    also where the order does not tell all elements apart. -/
theorem mergeSort_cons_eq (a : α) (items : List α) :
    (a :: items).mergeSort le =
      (items.mergeSort le).orderedInsert (fun a b => le a b = true) a := by
  obtain ⟨before, after, hinserted, hsorted, hbefore⟩ :=
    List.mergeSort_cons htrans htotal a items
  have hpairwise := List.pairwise_mergeSort htrans htotal (a :: items)
  rw [hinserted] at hpairwise
  have hafter : ∀ b ∈ after, le a b = true := fun b hb =>
    List.rel_of_pairwise_cons (List.pairwise_append.mp hpairwise).2.1 hb
  rw [hinserted, hsorted, orderedInsert_between hbefore hafter]

/-- Both stable sorts give the same list. -/
theorem mergeSort_eq_insertionSort (items : List α) :
    items.mergeSort le = items.insertionSort fun a b => le a b = true := by
  induction items with
  | nil => exact List.mergeSort_nil
  | cons a items ih => rw [mergeSort_cons_eq htrans htotal, ih, List.insertionSort_cons]

end Sorting

namespace Candidate

variable {α : Type}

/-- The order of candidates is transitive. -/
theorem ranksBefore_trans (x y z : Candidate α) (hxy : x.ranksBefore y = true)
    (hyz : y.ranksBefore z = true) : x.ranksBefore z = true :=
  decide_eq_true (Int.le_trans (of_decide_eq_true hyz) (of_decide_eq_true hxy))

/-- Of two candidates one ranks before the other. -/
theorem ranksBefore_total (x y : Candidate α) : (x.ranksBefore y || y.ranksBefore x) = true := by
  rw [Bool.or_eq_true, ranksBefore, ranksBefore, decide_eq_true_iff, decide_eq_true_iff]
  exact Int.le_total _ _

/-- The best candidates are those that come first when each one is inserted
    before the ones it is not worse than. -/
theorem ranked_eq_insertionSort (beamWidth : Nat) (candidates : List (Candidate α)) :
    ranked beamWidth candidates =
      (candidates.insertionSort fun x y => x.ranksBefore y = true).take beamWidth := by
  rw [ranked, mergeSort_eq_insertionSort ranksBefore_trans ranksBefore_total]

/-! ## Rankings -/

/-- The candidates in the order of their scores, best first; those with the
    same score stand in the order they come in. -/
structure IsRanking (candidates ranking : List (Candidate α)) : Prop where
  sorted : ranking.Pairwise fun x y => y.score.orderKey ≤ x.score.orderKey
  stable : ∀ key : Int, (ranking.filter fun c => c.score.orderKey = key) =
    candidates.filter fun c => c.score.orderKey = key

/-- A ranking goes down in score. -/
theorem sorted_mergeSort (candidates : List (Candidate α)) :
    (candidates.mergeSort ranksBefore).Pairwise fun x y =>
      y.score.orderKey ≤ x.score.orderKey :=
  (List.pairwise_mergeSort ranksBefore_trans ranksBefore_total candidates).imp of_decide_eq_true

/-- Sorting ranks. -/
theorem isRanking_mergeSort (candidates : List (Candidate α)) :
    IsRanking candidates (candidates.mergeSort ranksBefore) where
  sorted := sorted_mergeSort candidates
  stable key := by
    -- candidates with one score are sorted as they come in, so sorting all keeps their order
    have hequal : (candidates.filter fun c => c.score.orderKey = key).Pairwise
        fun x y => x.ranksBefore y = true := by
      rw [List.pairwise_filter]
      refine List.pairwise_of_forall fun x y hx hy => decide_eq_true ?_
      rw [of_decide_eq_true hx, of_decide_eq_true hy]
    have hsublist := (List.sublist_mergeSort ranksBefore_trans ranksBefore_total hequal
      List.filter_sublist).filter fun c => c.score.orderKey = key
    rw [List.filter_filter] at hsublist
    simp only [Bool.and_self] at hsublist
    refine (hsublist.eq_of_length ?_).symm
    exact ((List.mergeSort_perm candidates ranksBefore).filter _).length_eq.symm

namespace IsRanking

variable {candidates ranking other : List (Candidate α)}

/-- Every candidate has its place in a ranking. -/
theorem mem_iff (h : IsRanking candidates ranking) {x : Candidate α} :
    x ∈ ranking ↔ x ∈ candidates := by
  have hfilter := congrArg (x ∈ ·) (h.stable (x.score.orderKey))
  simpa using hfilter

/-- A list that is sorted already is its own ranking: the first of the other is
    the first with its score, and no score is higher. -/
private theorem eq_of_sorted
    (hsorted : ranking.Pairwise fun x y => y.score.orderKey ≤ x.score.orderKey)
    (h : IsRanking ranking other) : other = ranking := by
  induction ranking generalizing other with
  | nil => exact List.eq_nil_iff_forall_not_mem.mpr fun x hx => List.not_mem_nil (h.mem_iff.mp hx)
  | cons x rest ih =>
      cases other with
      | nil => exact absurd (h.mem_iff.mpr List.mem_cons_self) List.not_mem_nil
      | cons y rest' =>
          have hyx : y.score.orderKey ≤ x.score.orderKey := by
            rcases List.mem_cons.mp (h.mem_iff.mp List.mem_cons_self) with heq | hmem
            · rw [heq]
            · exact List.rel_of_pairwise_cons hsorted hmem
          have hxy : x.score.orderKey ≤ y.score.orderKey := by
            rcases List.mem_cons.mp (h.mem_iff.mpr List.mem_cons_self) with heq | hmem
            · rw [heq]
            · exact List.rel_of_pairwise_cons h.sorted hmem
          have hkey : y.score.orderKey = x.score.orderKey :=
            Int.le_antisymm hyx hxy
          have hhead := h.stable (x.score.orderKey)
          simp only [List.filter_cons, hkey, decide_true, if_true, List.cons.injEq] at hhead
          obtain ⟨rfl, -⟩ := hhead
          rw [ih hsorted.of_cons ⟨h.sorted.of_cons, fun key => ?_⟩]
          have hstable := h.stable key
          rw [List.filter_cons, List.filter_cons] at hstable
          split at hstable
          · exact (List.cons.inj hstable).2
          · exact hstable

/-- There is one ranking only. -/
theorem unique (h : IsRanking candidates ranking) (hother : IsRanking candidates other) :
    other = ranking :=
  eq_of_sorted h.sorted ⟨hother.sorted, fun key => (hother.stable key).trans (h.stable key).symm⟩

/-- There is one ranking of candidates. -/
theorem eq_mergeSort (h : IsRanking candidates ranking) :
    ranking = candidates.mergeSort ranksBefore :=
  (isRanking_mergeSort candidates).unique h

/-- A ranking has the candidates that are ranked. -/
theorem perm (h : IsRanking candidates ranking) : ranking.Perm candidates := by
  rw [h.eq_mergeSort]
  exact List.mergeSort_perm candidates ranksBefore

end IsRanking

/-- If no two candidates have the same score, their order does not matter. -/
theorem mergeSort_eq_of_perm {xs ys : List (Candidate α)} (hperm : xs.Perm ys)
    (hapart : ys.Pairwise fun x y => x.score.orderKey ≠ y.score.orderKey) :
    xs.mergeSort ranksBefore = ys.mergeSort ranksBefore := by
  have hnodup : (ys.map fun c => c.score.orderKey).Nodup := List.pairwise_map.mpr hapart
  refine List.Perm.eq_of_pairwise ?_ (sorted_mergeSort xs) (sorted_mergeSort ys)
    (((List.mergeSort_perm xs ranksBefore).trans hperm).trans
      (List.mergeSort_perm ys ranksBefore).symm)
  intro x y hx hy hyx hxy
  have hx : x ∈ ys := hperm.mem_iff.mp (List.mem_mergeSort.mp hx)
  exact List.inj_on_of_nodup_map hnodup hx (List.mem_mergeSort.mp hy) (Int.le_antisymm hxy hyx)

end Candidate

/-- The pools are the rankings by insertion, cut off at the beam. -/
theorem Catalog.pools_eq_insertionSort (lookup : PartLookup) (beamWidth : Nat)
    (items : List CatalogItem) :
    pools lookup beamWidth items = .ofPools fun category =>
      (((candidates lookup items).filterMap (Candidate.narrow? category)).insertionSort
        fun x y => x.ranksBefore y = true).take (max 1 beamWidth) := by
  rw [pools]
  congr 1
  funext category
  exact Candidate.ranked_eq_insertionSort _ _

end PcAssembly
