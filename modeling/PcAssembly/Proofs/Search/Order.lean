import PcAssembly.Proofs.Number.TotalOrder
import PcAssembly.Search.Tally

/-! # Which of two builds is better

    Scores are compared by the total order of doubles, in which infinities,
    signed zeros and NaNs of both signs all have a place, and builds by score
    and then by ordinal.  Among builds with different ordinals this is a strict
    total order, so any finite number of them has one best build, whatever
    order they are looked at in. -/

namespace PcAssembly

namespace ChosenBuild

/-- `x` is the better build: its score is above the score of `y` in the total
    order of doubles, or it is the same score and `x` comes first. -/
def Outranks (x y : ChosenBuild) : Prop :=
  y.score.orderKey < x.score.orderKey ∨
    y.score = x.score ∧ x.ordinal < y.ordinal

theorem beats_iff {x y : ChosenBuild} : x.beats y = true ↔ x.Outranks y := by
  rw [Outranks, @eq_comm _ y.score x.score]
  simp only [beats, Bool.or_eq_true, Bool.and_eq_true, decide_eq_true_eq,
    Double.orderKey_inj]

theorem Outranks.asymm {x y : ChosenBuild} (h : x.Outranks y) : ¬ y.Outranks x := by
  rintro (hlt | ⟨hscore, hord⟩)
  · rcases h with h | ⟨h, _⟩
    · omega
    · rw [h] at hlt
      exact lt_irrefl _ hlt
  · rcases h with h | ⟨_, h⟩
    · rw [hscore] at h
      exact lt_irrefl _ h
    · omega

theorem Outranks.trans {x y z : ChosenBuild} (hxy : x.Outranks y) (hyz : y.Outranks z) :
    x.Outranks z := by
  rcases hxy with hxy | ⟨hs, ho⟩
  · rcases hyz with hyz | ⟨hs, _⟩
    · exact Or.inl (hyz.trans hxy)
    · exact Or.inl (by rw [hs]; exact hxy)
  · rcases hyz with hyz | ⟨hs', ho'⟩
    · exact Or.inl (by rw [← hs]; exact hyz)
    · exact Or.inr ⟨hs'.trans hs, ho.trans ho'⟩

/-- Of two builds with different ordinals one is better. -/
theorem outranks_of_not_beats {x y : ChosenBuild} (hne : x.ordinal ≠ y.ordinal)
    (h : ¬ x.beats y = true) : y.Outranks x := by
  rw [beats_iff, Outranks, not_or] at h
  obtain ⟨hscore, hord⟩ := h
  rcases (not_lt.mp hscore).lt_or_eq with hlt | heq
  · exact Or.inl hlt
  · have hsame : x.score = y.score := Double.orderKey_injective heq
    have hge : ¬ x.ordinal < y.ordinal := fun hlt => hord ⟨hsame.symm, hlt⟩
    exact Or.inr ⟨hsame, by omega⟩

/-! ## The best of some builds -/

/-- The best of some builds is one of them that outranks all others; only no
    builds have no best. -/
def IsBestOf (builds : List ChosenBuild) : Option ChosenBuild → Prop
  | none => builds = []
  | some best => best ∈ builds ∧ ∀ build ∈ builds, build = best ∨ best.Outranks build

/-- What is left of two best builds: the better one. -/
def betterOf (x : Option ChosenBuild) : Option ChosenBuild → Option ChosenBuild
  | none => x
  | some build => some (better x build)

theorem isBestOf_nil : IsBestOf [] none := rfl

theorem isBestOf_singleton (build : ChosenBuild) : IsBestOf [build] (some build) :=
  ⟨List.mem_singleton_self _, fun _ h => Or.inl (List.mem_singleton.mp h)⟩

/-- There is at most one best build. -/
theorem IsBestOf.unique {builds : List ChosenBuild} {x y : Option ChosenBuild}
    (hx : IsBestOf builds x) (hy : IsBestOf builds y) : x = y := by
  cases x with
  | none =>
      cases y with
      | none => rfl
      | some y =>
          have hnil : builds = [] := hx
          exact absurd hy.1 (by rw [hnil]; exact List.not_mem_nil)
  | some x =>
      cases y with
      | none =>
          have hnil : builds = [] := hy
          exact absurd hx.1 (by rw [hnil]; exact List.not_mem_nil)
      | some y =>
          rcases hx.2 y hy.1 with heq | hxy
          · rw [heq]
          · rcases hy.2 x hx.1 with heq | hyx
            · rw [heq]
            · exact absurd hyx hxy.asymm

/-- The best build depends only on which builds there are. -/
theorem IsBestOf.perm {xs ys : List ChosenBuild} {best : Option ChosenBuild}
    (hperm : xs.Perm ys) (h : IsBestOf xs best) : IsBestOf ys best := by
  cases best with
  | none =>
      have hnil : xs = [] := h
      rw [hnil] at hperm
      exact hperm.nil_eq.symm
  | some best =>
      exact ⟨hperm.mem_iff.mp h.1, fun build hmem => h.2 build (hperm.mem_iff.mpr hmem)⟩

/-- **The best of two lists is the better of their best builds**, if no ordinal
    is in both. -/
theorem IsBestOf.append {xs ys : List ChosenBuild} {x y : Option ChosenBuild}
    (hx : IsBestOf xs x) (hy : IsBestOf ys y)
    (hdistinct : ∀ a ∈ xs, ∀ b ∈ ys, a.ordinal ≠ b.ordinal) :
    IsBestOf (xs ++ ys) (betterOf x y) := by
  cases y with
  | none =>
      have hnil : ys = [] := hy
      rw [hnil, List.append_nil]
      exact hx
  | some b =>
      cases x with
      | none =>
          have hnil : xs = [] := hx
          rw [hnil, List.nil_append]
          exact hy
      | some a =>
          by_cases hbeats : b.beats a = true
          · -- every build of `xs` is below `a`, which is below `b`
            have hba : b.Outranks a := beats_iff.mp hbeats
            have hbest : betterOf (some a) (some b) = some b := by
              simp only [betterOf, better, hbeats, if_true]
            rw [hbest]
            refine ⟨List.mem_append_right _ hy.1, fun build hmem => ?_⟩
            rcases List.mem_append.mp hmem with hxs | hys
            · rcases hx.2 build hxs with heq | hab
              · exact Or.inr (heq ▸ hba)
              · exact Or.inr (hba.trans hab)
            · exact hy.2 build hys
          · -- the ordinals differ, so `a` is above `b`, which is above every build of `ys`
            have hab : a.Outranks b :=
              outranks_of_not_beats (hdistinct a hx.1 b hy.1).symm hbeats
            have hbest : betterOf (some a) (some b) = some a := by
              simp only [betterOf, better, hbeats]
              rfl
            rw [hbest]
            refine ⟨List.mem_append_left _ hx.1, fun build hmem => ?_⟩
            rcases List.mem_append.mp hmem with hxs | hys
            · exact hx.2 build hxs
            · rcases hy.2 build hys with heq | hba
              · exact Or.inr (heq ▸ hab)
              · exact Or.inr (hab.trans hba)

end ChosenBuild

end PcAssembly
