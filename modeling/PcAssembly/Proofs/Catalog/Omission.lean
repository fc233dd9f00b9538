import Mathlib.Data.List.Infix
import PcAssembly.Proofs.Catalog.Provenance
import PcAssembly.Proofs.Catalog.Ranking

/-! # Catalogs with items left out

    A pool is what the beam leaves of the candidates of a category, best first.
    Leaving items out of a catalog therefore does two things: their candidates
    are gone, and others move up and may come into the beam.  If only processors
    of other platforms are left out, nothing changes in the other pools, and the
    processors of the platform that are in the beam stay there, in their order;
    at most, more of them follow. -/

namespace PcAssembly

/-- `rest` is what remains of `items` when some elements are left out, all of
    them with the property. -/
inductive Omits {α : Type} (p : α → Prop) : (items rest : List α) → Prop
  | nil : Omits p [] []
  | keep {items rest : List α} (a : α) (h : Omits p items rest) : Omits p (a :: items) (a :: rest)
  | leave {items rest : List α} (a : α) (ha : p a) (h : Omits p items rest) :
      Omits p (a :: items) rest

namespace Omits

variable {α β : Type} {p : α → Prop} {items rest : List α}

theorem refl (items : List α) : Omits p items items := by
  induction items with
  | nil => exact .nil
  | cons a _ ih => exact .keep a ih

theorem subset (h : Omits p items rest) : rest ⊆ items := by
  induction h with
  | nil => exact List.Subset.refl _
  | keep a _ ih => exact List.cons_subset_cons a ih
  | leave a _ _ ih => exact List.subset_cons_of_subset a ih

/-- If nothing has the property, nothing is left out. -/
theorem eq_of_never (h : Omits p items rest) (hnever : ∀ a, ¬ p a) : rest = items := by
  induction h with
  | nil => rfl
  | keep a _ ih => rw [ih]
  | leave a ha _ _ => exact absurd ha (hnever a)

/-- A filter leaves out what it does not keep. -/
theorem filter {keep : α → Bool} (hleft : ∀ a, keep a = false → p a) (items : List α) :
    Omits p items (items.filter keep) := by
  induction items with
  | nil => exact .nil
  | cons a _ ih =>
      cases hkeep : keep a with
      | true => rw [List.filter_cons_of_pos hkeep]; exact .keep a ih
      | false =>
          rw [List.filter_cons_of_neg (Bool.eq_false_iff.mp hkeep)]
          exact .leave a (hleft a hkeep) ih

/-- What is made of the elements that are left out is left out. -/
theorem filterMap {q : β → Prop} {f : α → Option β} (h : Omits p items rest)
    (hmade : ∀ a, p a → ∀ b, f a = some b → q b) :
    Omits q (items.filterMap f) (rest.filterMap f) := by
  induction h with
  | nil => exact .nil
  | keep a _ ih =>
      cases hf : f a with
      | none => rw [List.filterMap_cons_none hf, List.filterMap_cons_none hf]; exact ih
      | some b =>
          rw [List.filterMap_cons_some hf, List.filterMap_cons_some hf]
          exact .keep b ih
  | leave a ha _ ih =>
      cases hf : f a with
      | none => rw [List.filterMap_cons_none hf]; exact ih
      | some b =>
          rw [List.filterMap_cons_some hf]
          exact .leave b (hmade a ha b hf) ih

/-- What is left out may stand anywhere. -/
theorem leave_between {a : α} {before after : List α} (ha : p a)
    (h : Omits p (before ++ after) rest) : Omits p (before ++ a :: after) rest := by
  induction before generalizing rest with
  | nil => exact .leave a ha h
  | cons b before ih =>
      cases h with
      | keep _ h => exact .keep b (ih h)
      | leave _ hb h => exact .leave b hb (ih h)

/-! ## Sorting -/

section Sorting

variable {le : α → α → Bool} (htrans : ∀ a b c, le a b = true → le b c = true → le a c = true)
  (htotal : ∀ a b, (le a b || le b a) = true)

include htrans

/-- An element goes to the same place in a sorted list whether others are left
    out or not. -/
theorem orderedInsert (a : α) (h : Omits p items rest)
    (hsorted : items.Pairwise fun a b => le a b = true) :
    Omits p (items.orderedInsert (fun a b => le a b = true) a)
      (rest.orderedInsert (fun a b => le a b = true) a) := by
  induction h with
  | nil => exact .keep a .nil
  | @keep items rest b h ih =>
      rw [List.orderedInsert_cons, List.orderedInsert_cons]
      split
      · exact .keep a (.keep b h)
      · exact .keep b (ih hsorted.of_cons)
  | @leave items rest b hb h ih =>
      rw [List.orderedInsert_cons]
      split
      · rename_i hab
        -- `a` comes before `b`, hence before all that remains behind `b`
        have hfirst : ∀ c ∈ rest, le a c = true := fun c hc =>
          htrans a b c hab (List.rel_of_pairwise_cons hsorted (h.subset hc))
        cases rest with
        | nil => exact .keep a (.leave b hb h)
        | cons c rest =>
            rw [List.orderedInsert_cons, if_pos (hfirst c List.mem_cons_self)]
            exact .keep a (.leave b hb h)
      · exact .leave b hb (ih hsorted.of_cons)

include htotal

/-- Sorting leaves out what was left out. -/
theorem mergeSort (h : Omits p items rest) :
    Omits p (items.mergeSort le) (rest.mergeSort le) := by
  induction h with
  | nil =>
      rw [List.mergeSort_nil]
      exact .nil
  | @keep items rest a _ ih =>
      rw [mergeSort_cons_eq htrans htotal a items, mergeSort_cons_eq htrans htotal a rest]
      exact ih.orderedInsert htrans a (List.pairwise_mergeSort htrans htotal items)
  | @leave items rest a ha _ ih =>
      obtain ⟨before, after, hinserted, hsorted, -⟩ :=
        List.mergeSort_cons htrans htotal a items
      rw [hsorted] at ih
      rw [hinserted]
      exact ih.leave_between ha

end Sorting

/-! ## Cutting off -/

/-- Where nothing is kept of what was left out, the same is kept. -/
theorem filter_eq {keep : α → Bool} (h : Omits p items rest)
    (hkeep : ∀ a, p a → keep a = false) : rest.filter keep = items.filter keep := by
  induction h with
  | nil => rfl
  | keep a _ ih => rw [List.filter_cons, List.filter_cons, ih]
  | leave a ha _ ih => rw [ih, List.filter_cons, hkeep a ha, if_neg Bool.false_ne_true]

/-- Cutting off after some length, more may be kept where others were left out
    before. -/
theorem take_filter {keep : α → Bool} (h : Omits p items rest)
    (hkeep : ∀ a, p a → keep a = false) (length : Nat) :
    (items.take length).filter keep <+: (rest.take length).filter keep := by
  induction h generalizing length with
  | nil => exact List.prefix_rfl
  | keep a _ ih =>
      cases length with
      | zero => exact List.prefix_rfl
      | succ length =>
          rw [List.take_succ_cons, List.take_succ_cons, List.filter_cons, List.filter_cons]
          split
          · exact (List.prefix_cons_inj a).mpr (ih length)
          · exact ih length
  | @leave items rest a ha _ ih =>
      cases length with
      | zero => exact List.prefix_rfl
      | succ length =>
          rw [List.take_succ_cons, List.filter_cons, hkeep a ha, if_neg Bool.false_ne_true]
          have hshorter : (rest.take length).filter keep <+: (rest.take (length + 1)).filter keep :=
            (List.take_prefix_take_left (Nat.le_succ length)).filter keep
          exact (ih length).trans hshorter

end Omits

/-! ## Pools -/

/-- The item leads to a processor whose socket's name does not start like this;
    a request for such sockets excludes it. -/
def CatalogItem.IsExcluded (lookup : PartLookup) (start : String) (item : CatalogItem) : Prop :=
  ∃ id cpu, ComponentTag.ofText? item.componentTag = some ⟨.cpu, id⟩ ∧
    lookup .cpu id = some (.cpu cpu) ∧ ¬ start.toList <+: cpu.socket.toList

namespace Catalog

/-- The processors of a platform in a catalog, in its order. -/
def processors (lookup : PartLookup) (platform : Platform) (items : List CatalogItem) :
    List (Candidate Cpu) :=
  ((candidates lookup items).filterMap (Candidate.narrow? .cpu)).filter fun cpu =>
    platform.matchesSocket cpu.facts.socket

variable {lookup : PartLookup} {platform : Platform} {items rest : List CatalogItem}

/-- The candidate that an excluded item becomes is a processor that the
    platform does not match. -/
theorem omits_candidates
    (h : Omits (CatalogItem.IsExcluded lookup platform.socketStart) items rest) :
    Omits (fun found => ∃ cpu, found.facts = .cpu cpu ∧
      platform.matchesSocket cpu.socket = false) (candidates lookup items)
        (candidates lookup rest) := by
  refine h.filterMap ?_
  rintro item ⟨id, cpu, htag, hlookup, hsocket⟩ found hfound
  obtain ⟨tag, part, htag', hpart, -, rfl⟩ :=
    Resolution.ofItem_eq_found_iff.mp (Resolution.candidate?_eq_some_iff.mp hfound)
  cases htag.symm.trans htag'
  cases hlookup.symm.trans hpart
  exact ⟨cpu, rfl, Bool.eq_false_iff.mpr fun hmatches => hsocket (Text.startsWith_iff.mp hmatches)⟩

/-- Of the other categories nothing is left out. -/
theorem pool_eq_of_omits (beamWidth : Nat) {category : Category} (hcategory : category ≠ .cpu)
    (h : Omits (CatalogItem.IsExcluded lookup platform.socketStart) items rest) :
    (pools lookup beamWidth rest).pool category = (pools lookup beamWidth items).pool category := by
  have hnarrowed : Omits (fun _ : Candidate category.Facts => False)
      ((candidates lookup items).filterMap (Candidate.narrow? category))
      ((candidates lookup rest).filterMap (Candidate.narrow? category)) := by
    refine (omits_candidates h).filterMap ?_
    rintro found ⟨cpu, hcpu, -⟩ candidate hnarrow
    obtain ⟨facts, hfacts, -⟩ := Option.map_eq_some_iff.mp hnarrow
    -- a processor has no facts of another category
    rw [hcpu] at hfacts
    have hsome : (Part.facts? category (.cpu cpu)).isSome :=
      Option.isSome_iff_exists.mpr ⟨facts, hfacts⟩
    exact hcategory ((Part.facts?_isSome_iff category _).mp hsome).symm
  rw [pools, pools, CandidatePools.pool_ofPools, CandidatePools.pool_ofPools,
    hnarrowed.eq_of_never fun _ => id]

/-- Among the processors only some of other platforms are left out. -/
theorem omits_cpus
    (h : Omits (CatalogItem.IsExcluded lookup platform.socketStart) items rest) :
    Omits (fun cpu : Candidate Cpu => platform.matchesSocket cpu.facts.socket = false)
      ((candidates lookup items).filterMap (Candidate.narrow? .cpu))
      ((candidates lookup rest).filterMap (Candidate.narrow? .cpu)) := by
  refine (omits_candidates h).filterMap ?_
  rintro found ⟨cpu, hcpu, hmatches⟩ candidate hnarrow
  obtain ⟨facts, hfacts, rfl⟩ := Option.map_eq_some_iff.mp hnarrow
  rw [hcpu] at hfacts
  cases hfacts
  exact hmatches

theorem processors_eq_of_omits
    (h : Omits (CatalogItem.IsExcluded lookup platform.socketStart) items rest) :
    processors lookup platform rest = processors lookup platform items :=
  (omits_cpus h).filter_eq fun _ => id

/-- **Leaving out excluded processors displaces no processor of the platform**:
    those in the beam stay there in their order, and at most others follow. -/
theorem cpus_prefix_of_omits (beamWidth : Nat)
    (h : Omits (CatalogItem.IsExcluded lookup platform.socketStart) items rest) :
    ((pools lookup beamWidth items).retainPlatform platform).cpus <+:
      ((pools lookup beamWidth rest).retainPlatform platform).cpus :=
  ((omits_cpus h).mergeSort Candidate.ranksBefore_trans Candidate.ranksBefore_total).take_filter
    (fun _ => id) (max 1 beamWidth)

/-- The pool of a platform holds some of its processors, best first. -/
theorem cpus_subperm_processors (beamWidth : Nat) :
    ((pools lookup beamWidth items).retainPlatform platform).cpus.Subperm
      (processors lookup platform items) := by
  let found := (candidates lookup items).filterMap (Candidate.narrow? .cpu)
  have hsorted : ((found.mergeSort Candidate.ranksBefore).filter fun cpu =>
      platform.matchesSocket cpu.facts.socket).Perm (processors lookup platform items) :=
    (List.mergeSort_perm found _).filter _
  exact ((List.take_sublist _ _).filter _).subperm.trans hsorted.subperm

end Catalog

end PcAssembly
