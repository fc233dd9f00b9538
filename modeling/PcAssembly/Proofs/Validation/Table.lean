import Mathlib.Algebra.Order.Floor.Semiring
import Mathlib.Data.Rat.Floor
import Mathlib.Tactic.Linarith
import Mathlib.Tactic.NormNum
import PcAssembly.Proofs.Catalog.Provenance
import PcAssembly.Proofs.Compatibility

/-! # Reports follow the table of rules

    The rules of compatibility can be written down as a table: what a selection
    must not do, how serious it is, and the code under which it is reported.
    `Clause.IsViolated` is this table, in terms of the ids of a selection and
    the parts they lead to, and it says nothing about how a rule is evaluated.
    A report has one finding for every line of the table that is violated, in
    the order of the table, and no other finding.  Hence it depends on nothing
    but the parts the selection names, and an id that leads to no part of its
    slot might as well be missing. -/

namespace PcAssembly

/-! ## Filled slots -/

/-- The slot is filled: it has an id, and the part with this id in the category
    of the slot is of that category and has these facts. -/
def Filled (lookup : PartLookup) (category : Category) (slot : Option Int64)
    (facts : category.Facts) : Prop :=
  ∃ id, slot = some id ∧ lookup category id = some (.ofFacts category facts)

/-- Facts are looked up if a part of the category with these facts is filed. -/
theorem ResolvedBuild.facts?_eq_some_iff {lookup : PartLookup} {category : Category} {id : Int64}
    {facts : category.Facts} :
    facts? lookup category id = some facts ↔
      lookup category id = some (.ofFacts category facts) := by
  rw [facts?, Option.bind_eq_some_iff]
  simp only [Part.facts?_eq_some_iff, exists_eq_right]

/-- A slot is filled if its id leads to facts. -/
theorem filled_iff {lookup : PartLookup} {category : Category} {slot : Option Int64}
    {facts : category.Facts} :
    Filled lookup category slot facts ↔
      slot.bind (ResolvedBuild.facts? lookup category) = some facts := by
  rw [Filled, Option.bind_eq_some_iff]
  simp only [ResolvedBuild.facts?_eq_some_iff]

/-- The id leads to a drive that needs an M.2 slot. -/
def isNvme (lookup : PartLookup) (id : Int64) : Bool :=
  match lookup .storage id with
  | some (.storage drive) => drive.kind == .nvme
  | _ => false

/-! ## The table -/

/-- A line of the table. -/
inductive Clause where
  | boardSocket
  | ramType
  | ramFrequency
  | gpuLength
  | coolerHeight
  | coolerSocket
  | psuWattage
  | psuForm
  | m2Slots
  | pcieSlots
  deriving DecidableEq

namespace Clause

/-- All lines, in the order of the table. -/
def all : List Clause :=
  [.boardSocket, .ramType, .ramFrequency, .gpuLength, .coolerHeight, .coolerSocket, .psuWattage,
   .psuForm, .m2Slots, .pcieSlots]

/-- How serious it is to violate a line. -/
def level : Clause → IssueLevel
  | .ramFrequency => .warning
  | _ => .error

/-- The code under which a violation is reported. -/
def code : Clause → IssueCode
  | .boardSocket => .cpuSocketMismatch
  | .ramType => .ramTypeMismatch
  | .ramFrequency => .ramFreqTooHigh
  | .gpuLength => .gpuTooLong
  | .coolerHeight => .coolerTooTall
  | .coolerSocket => .cpuSocketMismatch
  | .psuWattage => .psuTooWeak
  | .psuForm => .psuFormfactorMismatch
  | .m2Slots => .m2SlotsExceeded
  | .pcieSlots => .pcieSlotsExceeded

/-- The wattage that a build needs: half as much again as the draw of its
    processor, its graphics card and fifty watts, rounded up, and no more than
    a wattage can be. -/
def neededWattage (cpu : Cpu) (gpu : Gpu) : Nat :=
  min (2 ^ 32 - 1) ⌈((cpu.tdpWatts.toNat : ℚ) + gpu.tdpWatts.toNat + 50) * (3 / 2)⌉₊

/-- The selection violates this line of the table. -/
def IsViolated (lookup : PartLookup) (selection : Selection) : Clause → Prop
  | .boardSocket => ∃ cpu board, Filled lookup .cpu selection.cpu cpu ∧
      Filled lookup .motherboard selection.motherboard board ∧ cpu.socket ≠ board.socket
  | .ramType => ∃ ram board, Filled lookup .ram selection.ram ram ∧
      Filled lookup .motherboard selection.motherboard board ∧ ram.ramType ≠ board.ramType
  | .ramFrequency => ∃ ram board, Filled lookup .ram selection.ram ram ∧
      Filled lookup .motherboard selection.motherboard board ∧ board.ramMaxFreq < ram.freqMhz
  | .gpuLength => ∃ gpu chassis, Filled lookup .gpu selection.gpu gpu ∧
      Filled lookup .chassis selection.chassis chassis ∧ chassis.gpuMaxLengthMm < gpu.lengthMm
  | .coolerHeight => ∃ cooler chassis, Filled lookup .cooler selection.cooler cooler ∧
      Filled lookup .chassis selection.chassis chassis ∧
      chassis.coolerMaxHeightMm < cooler.heightMm
  | .coolerSocket => ∃ cooler cpu, Filled lookup .cooler selection.cooler cooler ∧
      Filled lookup .cpu selection.cpu cpu ∧
      cooler.supportedSockets ≠ [] ∧ cpu.socket ∉ cooler.supportedSockets
  | .psuWattage => ∃ psu cpu gpu, Filled lookup .psu selection.psu psu ∧
      Filled lookup .cpu selection.cpu cpu ∧ Filled lookup .gpu selection.gpu gpu ∧
      psu.wattage.toNat < neededWattage cpu gpu
  | .psuForm => ∃ psu chassis, Filled lookup .psu selection.psu psu ∧
      Filled lookup .chassis selection.chassis chassis ∧ psu.formFactor ≠ chassis.psuFormFactor
  | .m2Slots => ∃ board, Filled lookup .motherboard selection.motherboard board ∧
      board.m2Slots.toNat < selection.storage.countP (isNvme lookup)
  | .pcieSlots => ∃ gpu board, Filled lookup .gpu selection.gpu gpu ∧
      Filled lookup .motherboard selection.motherboard board ∧ board.pcieSlots < gpu.slots

/-- The rule that watches over a line. -/
def rule : Clause → Rule
  | .boardSocket => .boardSocket
  | .ramType => .ramType
  | .ramFrequency => .ramFrequency
  | .gpuLength => .gpuLength
  | .coolerHeight => .coolerHeight
  | .coolerSocket => .coolerSocket
  | .psuWattage => .psuWattage
  | .psuForm => .psuForm
  | .m2Slots => .m2Slots
  | .pcieSlots => .pcieSlots

theorem map_rule_all : all.map rule = Rule.all := rfl

/-- Every clause is listed. -/
theorem mem_all (clause : Clause) : clause ∈ all := by
  cases clause <;> decide

/-- A clause has the level of its rule. -/
theorem level_rule (clause : Clause) : clause.rule.level = clause.level := by
  cases clause <;> rfl

/-- A clause has the code of its rule. -/
theorem code_rule (clause : Clause) : clause.rule.code = clause.code := by
  cases clause <;> rfl

/-! ## Rules and lines -/

/-- The ceiling of the table is the division that rounds up. -/
theorem ceil_eq (n : Nat) : ⌈(n : ℚ) * (3 / 2)⌉₊ = (3 * n + 1) / 2 := by
  apply le_antisymm
  · rw [Nat.ceil_le]
    have hup : 3 * n ≤ 2 * ((3 * n + 1) / 2) := by omega
    have hcast : (3 : ℚ) * n ≤ 2 * ((3 * n + 1) / 2 : Nat) := by exact_mod_cast hup
    linarith
  · have hceil := Nat.le_ceil ((n : ℚ) * (3 / 2))
    have hcast : (3 : ℚ) * n ≤ 2 * (⌈(n : ℚ) * (3 / 2)⌉₊ : Nat) := by linarith
    have hup : 3 * n ≤ 2 * ⌈(n : ℚ) * (3 / 2)⌉₊ := by exact_mod_cast hcast
    omega

/-- The wattage that is checked is the exact one, bounded by what the type
    holds. -/
theorem toNat_required (cpu : Cpu) (gpu : Gpu) :
    (Wattage.required cpu gpu).toNat = neededWattage cpu gpu := by
  rw [Wattage.required, Wattage.toNat_requiredFor, neededWattage, ← ceil_eq]
  push_cast [Wattage.baseline]
  rfl

variable {lookup : PartLookup} {selection : Selection}

/-- A rule about one slot complains if it is filled with a part that falls short. -/
private theorem violated_single_iff (x : Category) {slot : Option Int64} {short : x.Facts → Prop}
    {test : x.Facts → Bool} {words : x.Facts → String} (htest : ∀ a, test a = true ↔ short a) :
    (∃ a, Filled lookup x slot a ∧ short a) ↔
      ((slot.bind (ResolvedBuild.facts? lookup x)).bind fun a =>
        Rule.complain (test a) (words a)).isSome := by
  simp only [filled_iff, ← htest]
  cases slot.bind (ResolvedBuild.facts? lookup x) <;> simp [Rule.complain]

/-- A rule about two slots complains if both are filled with parts that clash. -/
private theorem violated_pair_iff (x y : Category) {slot slot' : Option Int64}
    {clash : x.Facts → y.Facts → Prop} {test : x.Facts → y.Facts → Bool}
    {words : x.Facts → y.Facts → String} (htest : ∀ a b, test a b = true ↔ clash a b) :
    (∃ a b, Filled lookup x slot a ∧ Filled lookup y slot' b ∧ clash a b) ↔
      ((slot.bind (ResolvedBuild.facts? lookup x)).bind fun a =>
        (slot'.bind (ResolvedBuild.facts? lookup y)).bind fun b =>
          Rule.complain (test a b) (words a b)).isSome := by
  simp only [filled_iff, ← htest]
  cases slot.bind (ResolvedBuild.facts? lookup x) <;>
    cases slot'.bind (ResolvedBuild.facts? lookup y) <;> simp [Rule.complain]

/-- The fast drives are counted in the selection. -/
theorem countP_nvme :
    ((ResolvedBuild.ofSelection lookup selection).storage.countP fun drive =>
      drive.kind == .nvme) = selection.storage.countP (isNvme lookup) := by
  show (selection.storage.filterMap (ResolvedBuild.facts? lookup .storage)).countP _ = _
  rw [List.countP_filterMap]
  refine List.countP_congr fun id _ => ?_
  rw [isNvme, ResolvedBuild.facts?]
  cases lookup .storage id with
  | none => simp
  | some part => cases part <;> simp [Part.facts?]

/-- The rule about the supply complains if it gives less than is needed. -/
private theorem violated_psuWattage_iff :
    IsViolated lookup selection .psuWattage ↔
      (Rule.psuWattage.complaint? (.ofSelection lookup selection)).isSome := by
  show _ ↔ ((selection.psu.bind (ResolvedBuild.facts? lookup .psu)).bind fun psu =>
    (selection.cpu.bind (ResolvedBuild.facts? lookup .cpu)).bind fun cpu =>
      (selection.gpu.bind (ResolvedBuild.facts? lookup .gpu)).bind fun gpu =>
        Rule.complain (psu.wattage < Wattage.required cpu gpu) _).isSome
  simp only [IsViolated, filled_iff, ← toNat_required, ← UInt32.lt_iff_toNat_lt]
  cases selection.psu.bind (ResolvedBuild.facts? lookup .psu) <;>
    cases selection.cpu.bind (ResolvedBuild.facts? lookup .cpu) <;>
      cases selection.gpu.bind (ResolvedBuild.facts? lookup .gpu) <;> simp [Rule.complain]

/-- **A line is violated exactly when its rule complains.** -/
theorem isViolated_iff (clause : Clause) :
    clause.IsViolated lookup selection ↔
      (clause.rule.complaint? (.ofSelection lookup selection)).isSome := by
  cases clause with
  | boardSocket => exact violated_pair_iff .cpu .motherboard fun _ _ => bne_iff_ne
  | ramType => exact violated_pair_iff .ram .motherboard fun _ _ => bne_iff_ne
  | ramFrequency => exact violated_pair_iff .ram .motherboard fun _ _ => decide_eq_true_iff
  | gpuLength => exact violated_pair_iff .gpu .chassis fun _ _ => decide_eq_true_iff
  | coolerHeight => exact violated_pair_iff .cooler .chassis fun _ _ => decide_eq_true_iff
  | coolerSocket => exact violated_pair_iff .cooler .cpu fun _ _ => Cooler.not_supports_iff
  | psuWattage => exact violated_psuWattage_iff
  | psuForm => exact violated_pair_iff .psu .chassis fun _ _ => bne_iff_ne
  | m2Slots =>
      -- the rule counts the drives that were found, the table counts ids
      refine violated_single_iff .motherboard fun board => ?_
      rw [countP_nvme]
      exact decide_eq_true_iff
  | pcieSlots => exact violated_pair_iff .gpu .motherboard fun _ _ => decide_eq_true_iff

end Clause

/-! ## What a report depends on -/

namespace Selection

variable {lookup other : PartLookup} {selection : Selection}

/-- The selection has this id in the slot of this category. -/
def Names (selection : Selection) : Category → Int64 → Prop
  | .cpu, id => selection.cpu = some id
  | .motherboard, id => selection.motherboard = some id
  | .ram, id => selection.ram = some id
  | .gpu, id => selection.gpu = some id
  | .psu, id => selection.psu = some id
  | .chassis, id => selection.chassis = some id
  | .cooler, id => selection.cooler = some id
  | .storage, id => id ∈ selection.storage

/-- The id is known as that of a part of this category. -/
def leadsTo (lookup : PartLookup) (category : Category) (id : Int64) : Bool :=
  (lookup category id).any fun part => part.category == category

/-- The selection without the ids that do not lead to a part of their slot. -/
def resolvable (lookup : PartLookup) (selection : Selection) : Selection where
  cpu := selection.cpu.filter (leadsTo lookup .cpu)
  motherboard := selection.motherboard.filter (leadsTo lookup .motherboard)
  ram := selection.ram.filter (leadsTo lookup .ram)
  gpu := selection.gpu.filter (leadsTo lookup .gpu)
  psu := selection.psu.filter (leadsTo lookup .psu)
  chassis := selection.chassis.filter (leadsTo lookup .chassis)
  cooler := selection.cooler.filter (leadsTo lookup .cooler)
  storage := selection.storage.filter (leadsTo lookup .storage)

/-- A slot leads to the same facts wherever its id leads to the same part. -/
private theorem bind_facts?_congr (category : Category) {slot : Option Int64}
    (h : ∀ id, slot = some id → other category id = lookup category id) :
    slot.bind (ResolvedBuild.facts? other category) =
      slot.bind (ResolvedBuild.facts? lookup category) := by
  refine Option.bind_congr fun id hid => ?_
  rw [ResolvedBuild.facts?, ResolvedBuild.facts?, h id hid]

/-- Only the parts that a selection names matter for its build. -/
theorem ofSelection_congr
    (h : ∀ category id, selection.Names category id → other category id = lookup category id) :
    ResolvedBuild.ofSelection other selection = .ofSelection lookup selection := by
  have hstorage : selection.storage.filterMap (ResolvedBuild.facts? other .storage) =
      selection.storage.filterMap (ResolvedBuild.facts? lookup .storage) := by
    refine List.filterMap_congr fun id hid => ?_
    rw [ResolvedBuild.facts?, ResolvedBuild.facts?, h .storage id hid]
  simp only [ResolvedBuild.ofSelection, bind_facts?_congr .cpu (h .cpu),
    bind_facts?_congr .motherboard (h .motherboard), bind_facts?_congr .ram (h .ram),
    bind_facts?_congr .gpu (h .gpu), bind_facts?_congr .psu (h .psu),
    bind_facts?_congr .chassis (h .chassis), bind_facts?_congr .cooler (h .cooler), hstorage]

/-- An id that is not known as a part of a category has no facts there. -/
theorem facts?_eq_none_of_not_leadsTo {category : Category} {id : Int64}
    (h : leadsTo lookup category id = false) :
    ResolvedBuild.facts? lookup category id = none := by
  rw [ResolvedBuild.facts?]
  cases hpart : lookup category id with
  | none => rfl
  | some part =>
      rw [leadsTo, hpart, Option.any_some, beq_eq_false_iff_ne] at h
      refine Option.not_isSome_iff_eq_none.mp fun hsome => h ?_
      exact (Part.facts?_isSome_iff category part).mp hsome

private theorem bind_facts?_filter (category : Category) (slot : Option Int64) :
    (slot.filter (leadsTo lookup category)).bind (ResolvedBuild.facts? lookup category) =
      slot.bind (ResolvedBuild.facts? lookup category) := by
  cases slot with
  | none => rfl
  | some id =>
      cases hid : leadsTo lookup category id with
      | true => rw [Option.filter_some_pos hid]
      | false =>
          rw [Option.filter_some_neg hid, Option.bind_some, facts?_eq_none_of_not_leadsTo hid]
          rfl

/-- Ids that do not lead to a part of their slot leave it unfilled. -/
theorem ofSelection_resolvable (lookup : PartLookup) (selection : Selection) :
    ResolvedBuild.ofSelection lookup (selection.resolvable lookup) =
      .ofSelection lookup selection := by
  have hstorage : (selection.storage.filter (leadsTo lookup .storage)).filterMap
      (ResolvedBuild.facts? lookup .storage) =
        selection.storage.filterMap (ResolvedBuild.facts? lookup .storage) := by
    rw [List.filterMap_filter]
    refine List.filterMap_congr fun id _ => ?_
    cases hid : leadsTo lookup .storage id with
    | true => exact if_pos rfl
    | false =>
        rw [facts?_eq_none_of_not_leadsTo hid]
        rfl
  simp only [ResolvedBuild.ofSelection, resolvable, bind_facts?_filter .cpu,
    bind_facts?_filter .motherboard, bind_facts?_filter .ram, bind_facts?_filter .gpu,
    bind_facts?_filter .psu, bind_facts?_filter .chassis, bind_facts?_filter .cooler, hstorage]

/-! ## Reports -/

instance (lookup : PartLookup) (selection : Selection) :
    DecidablePred (Clause.IsViolated lookup selection) := fun clause =>
  decidable_of_iff _ clause.isViolated_iff.symm

/-- The findings of a report have the levels and codes of the violated
    clauses, in order. -/
theorem kinds_report (lookup : PartLookup) (selection : Selection) :
    ((selection.report lookup).issues.map Issue.kind) =
      (Clause.all.filter fun clause => clause.IsViolated lookup selection).map fun clause =>
        (clause.level, clause.code) := by
  rw [show (selection.report lookup).issues =
    (ResolvedBuild.ofSelection lookup selection).issues from rfl, ResolvedBuild.kinds_issues,
    ← Clause.map_rule_all, List.filter_map, List.map_map]
  have hfilter : Clause.all.filter ((fun rule : Rule =>
      (rule.complaint? (.ofSelection lookup selection)).isSome) ∘ Clause.rule) =
        Clause.all.filter fun clause => clause.IsViolated lookup selection := by
    refine List.filter_congr fun clause _ => ?_
    rw [Function.comp_apply, Bool.eq_iff_iff, decide_eq_true_eq, clause.isViolated_iff]
  rw [hfilter]
  refine List.map_congr_left fun clause _ => ?_
  rw [Function.comp_apply, clause.level_rule, clause.code_rule]

/-- A selection passes if it violates no clause that is an error. -/
theorem isCompatible_report_iff (lookup : PartLookup) (selection : Selection) :
    (selection.report lookup).isCompatible = true ↔
      ∀ clause : Clause, clause.level = .error → ¬ clause.IsViolated lookup selection := by
  constructor
  · intro hcompatible clause hlevel hviolated
    have hrule : clause.rule ∈ Rule.all := List.mem_map_of_mem clause.mem_all
    have hsilent := ResolvedBuild.complaint?_eq_none_of_isCompatible hcompatible clause.rule hrule
      (clause.level_rule.trans hlevel)
    rw [clause.isViolated_iff, hsilent] at hviolated
    exact nomatch hviolated
  · intro hkept
    refine ResolvedBuild.isCompatible_iff.mpr fun issue hissue hlevel => ?_
    obtain ⟨rule, hrule, hfinding⟩ := ResolvedBuild.mem_issues_iff.mp hissue
    obtain ⟨message, hmessage, rfl⟩ := Rule.issue?_eq_some_iff.mp hfinding
    rw [← Clause.map_rule_all] at hrule
    obtain ⟨clause, -, rfl⟩ := List.mem_map.mp hrule
    exact hkept clause (clause.level_rule.symm.trans hlevel)
      (clause.isViolated_iff.mpr (Option.isSome_of_eq_some hmessage))

/-- **A report follows the table.**  It has one finding for every line of the
    table that the selection violates, with the level and the code of the line,
    in the order of the table, and no other; the selection is compatible exactly
    when it violates no line but the one that advises.  The report is the same
    wherever the ids that the selection names lead to the same parts, and it is
    the same without the ids that do not lead to a part of their slot. -/
theorem report_follows_table (lookup : PartLookup) (selection : Selection) :
    ((selection.report lookup).issues.map fun issue => (issue.level, issue.code)) =
        ((Clause.all.filter fun clause => clause.IsViolated lookup selection).map fun clause =>
          (clause.level, clause.code)) ∧
      ((selection.report lookup).isCompatible = true ↔
        ∀ clause : Clause, clause.level = .error → ¬ clause.IsViolated lookup selection) ∧
      (∀ other : PartLookup,
        (∀ category id, selection.Names category id → other category id = lookup category id) →
          selection.report other = selection.report lookup) ∧
      (selection.resolvable lookup).report lookup = selection.report lookup := by
  refine ⟨kinds_report lookup selection, isCompatible_report_iff lookup selection, ?_, ?_⟩
  · intro other hagree
    rw [report, report, issues, issues, ofSelection_congr hagree]
  · rw [report, report, issues, issues, ofSelection_resolvable]

/-- Parts of which hardly any two fit together. -/
def clashing : PartLookup
  | .cpu, 1 => some (.cpu ⟨"LGA1700", 125, 700⟩)
  | .motherboard, 2 => some (.motherboard ⟨"AM5", "DDR5", 6000, 1, 2, "ATX"⟩)
  | .ram, 3 => some (.ram ⟨"DDR4", 3200, 90⟩)
  | .gpu, 4 => some (.gpu ⟨360, 3, 320, 1500⟩)
  | .psu, 5 => some (.psu ⟨500, "SFX"⟩)
  | .chassis, 6 => some (.chassis ⟨330, 150, "ATX"⟩)
  | .cooler, 7 => some (.cooler ⟨160, ["AM5", "AM4"]⟩)
  | .storage, 8 => some (.storage ⟨.nvme, 150⟩)
  | .storage, 9 => some (.storage ⟨.nvme, 80⟩)
  | _, _ => none

/-- All of them at once, and a drive that nobody knows. -/
def clashingBuild : Selection where
  cpu := some 1
  motherboard := some 2
  ram := some 3
  gpu := some 4
  psu := some 5
  chassis := some 6
  cooler := some 7
  storage := [8, 10, 9]

/-- A selection that violates every line but the one about the frequency of the
    memory.  Whatever else a store holds, the report on it is the same. -/
theorem report_follows_table_clashing :
    (∀ category id, clashingBuild.Names category id →
      (if id = 11 then some (.psu ⟨1200, "ATX"⟩) else clashing category id) =
        clashing category id) ∧
    (clashingBuild.report fun category id =>
      if id = 11 then some (.psu ⟨1200, "ATX"⟩) else clashing category id) =
        clashingBuild.report clashing ∧
    ((Clause.all.filter fun clause => clause.IsViolated clashing clashingBuild).map fun clause =>
      (clause.level, clause.code)) =
      [(.error, .cpuSocketMismatch), (.error, .ramTypeMismatch), (.error, .gpuTooLong),
       (.error, .coolerTooTall), (.error, .cpuSocketMismatch), (.error, .psuTooWeak),
       (.error, .psuFormfactorMismatch), (.error, .m2SlotsExceeded),
       (.error, .pcieSlotsExceeded)] := by
  have hagree : ∀ category id, clashingBuild.Names category id →
      (if id = 11 then some (.psu ⟨1200, "ATX"⟩) else clashing category id) =
        clashing category id := by
    intro category id hnamed
    refine if_neg ?_
    rintro rfl
    cases category <;> exact absurd hnamed (by simp [Names, clashingBuild])
  obtain ⟨htable, -, hsame, -⟩ := report_follows_table clashing clashingBuild
  refine ⟨hagree, hsame _ hagree, htable.symm.trans ?_⟩
  decide +kernel

end Selection

end PcAssembly
