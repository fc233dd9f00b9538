import PcAssembly.Proofs.Validation.Table

/-! # Selections that are not complete yet

    A selection can be checked at every stage of being put together.  Nothing
    that is reported early is withdrawn later: what is reported on a part of a
    selection is reported, in the same order, on the whole, and in the same
    words unless it counts drives.  So whatever part is taken of a compatible
    selection, it is compatible. -/

namespace PcAssembly

/-- `part` is `whole` with some of the seven slots cleared and some of the
    drives taken out. -/
structure Selection.IsPartOf (part whole : Selection) : Prop where
  cpu : part.cpu = none ∨ part.cpu = whole.cpu
  motherboard : part.motherboard = none ∨ part.motherboard = whole.motherboard
  ram : part.ram = none ∨ part.ram = whole.ram
  gpu : part.gpu = none ∨ part.gpu = whole.gpu
  psu : part.psu = none ∨ part.psu = whole.psu
  chassis : part.chassis = none ∨ part.chassis = whole.chassis
  cooler : part.cooler = none ∨ part.cooler = whole.cooler
  storage : part.storage.Sublist whole.storage

variable {lookup : PartLookup}

/-- A slot that was not cleared leads to the same facts. -/
private theorem facts?_of_slot (category : Category) {x y : Option Int64}
    (hslot : x = none ∨ x = y) (facts : category.Facts)
    (hfacts : x.bind (ResolvedBuild.facts? lookup category) = some facts) :
    y.bind (ResolvedBuild.facts? lookup category) = some facts := by
  rcases hslot with hcleared | hkept
  · rw [hcleared] at hfacts
    exact nomatch hfacts
  · rw [← hkept]
    exact hfacts

/-- A part of a selection describes a part of its build. -/
theorem Selection.IsPartOf.ofSelection {part whole : Selection} (h : part.IsPartOf whole) :
    (ResolvedBuild.ofSelection lookup part).IsPartOf (.ofSelection lookup whole) where
  cpu := facts?_of_slot .cpu h.cpu
  motherboard := facts?_of_slot .motherboard h.motherboard
  ram := facts?_of_slot .ram h.ram
  gpu := facts?_of_slot .gpu h.gpu
  psu := facts?_of_slot .psu h.psu
  chassis := facts?_of_slot .chassis h.chassis
  cooler := facts?_of_slot .cooler h.cooler
  storage := h.storage.filterMap _

namespace ResolvedBuild.IsPartOf

variable {part whole : ResolvedBuild}

/-- The findings about a part of a build are, but for their words, among those
    about the whole, in the same order. -/
theorem kinds_sublist (h : part.IsPartOf whole) :
    (part.issues.map Issue.kind).Sublist (whole.issues.map Issue.kind) := by
  rw [kinds_issues, kinds_issues]
  refine List.Sublist.map _ ?_
  -- the rules that complain about the part are some of those that complain about the whole
  have hbroken : (Rule.all.filter fun rule => (rule.complaint? part).isSome) =
      (Rule.all.filter fun rule => (rule.complaint? whole).isSome).filter fun rule =>
        (rule.complaint? part).isSome := by
    rw [List.filter_filter]
    refine List.filter_congr fun rule hrule => ?_
    cases hpart : (rule.complaint? part).isSome with
    | false => rfl
    | true => rw [h.complaint?_isSome hrule hpart]; rfl
  rw [hbroken]
  exact List.filter_sublist

/-- A finding about a part of a build is one about the whole, word for word,
    unless it counts drives. -/
theorem mem_issues (h : part.IsPartOf whole) {issue : Issue} (hissue : issue ∈ part.issues)
    (hcode : issue.code ≠ .m2SlotsExceeded) : issue ∈ whole.issues := by
  obtain ⟨rule, hrule, hfinding⟩ := mem_issues_iff.mp hissue
  obtain ⟨message, hmessage, rfl⟩ := Rule.issue?_eq_some_iff.mp hfinding
  have hwhole := h.complaint?_eq hrule hcode hmessage
  exact mem_issues_iff.mpr ⟨rule, hrule, Rule.issue?_eq_some_iff.mpr ⟨message, hwhole, rfl⟩⟩

end ResolvedBuild.IsPartOf

namespace Selection

/-- **Reports only grow** while a selection is completed.  The levels and codes
    that are reported on a part of a selection are reported on the whole in the
    same order, each as often; a part of a compatible selection is compatible;
    and a finding keeps its words unless it counts drives. -/
theorem report_mono (lookup : PartLookup) {part whole : Selection} (h : part.IsPartOf whole) :
    ((part.report lookup).issues.map fun issue => (issue.level, issue.code)).Sublist
        ((whole.report lookup).issues.map fun issue => (issue.level, issue.code)) ∧
      ((whole.report lookup).isCompatible = true → (part.report lookup).isCompatible = true) ∧
      ∀ issue ∈ (part.report lookup).issues, issue.code ≠ .m2SlotsExceeded →
        issue ∈ (whole.report lookup).issues := by
  have hbuild : (ResolvedBuild.ofSelection lookup part).IsPartOf (.ofSelection lookup whole) :=
    h.ofSelection
  refine ⟨hbuild.kinds_sublist, hbuild.isCompatible, ?_⟩
  intro issue hissue hcode
  exact hbuild.mem_issues hissue hcode

/-- A selection that is still without a board. -/
def started : Selection := { cpu := some 1, cooler := some 7, storage := [8] }

/-- The same selection with a board and two more drives, one of them unknown. -/
def continued : Selection := { started with motherboard := some 2, storage := [8, 10, 9] }

/-- The cooler that does not fit the processor is reported before there is a
    board.  With the board it comes second, behind another finding with the same
    code, and two drives on one slot come last. -/
theorem report_mono_clashing :
    started.IsPartOf continued ∧
    (started.report clashing).issues.map Issue.kind = [(.error, .cpuSocketMismatch)] ∧
    ((started.report clashing).issues.map Issue.kind).Sublist
      ((continued.report clashing).issues.map Issue.kind) ∧
    (continued.report clashing).issues.map Issue.kind =
      [(.error, .cpuSocketMismatch), (.error, .cpuSocketMismatch), (.error, .m2SlotsExceeded)] := by
  have hpart : started.IsPartOf continued := by
    constructor <;> simp [started, continued]
  exact ⟨hpart, by decide +kernel, (report_mono clashing hpart).1, by decide +kernel⟩

end Selection

end PcAssembly
