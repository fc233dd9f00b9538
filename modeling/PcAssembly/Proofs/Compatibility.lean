import PcAssembly.Compatibility

/-! # What compatibility promises

    A build is compatible if every rule that could make it incompatible is
    silent.  A rule that is silent about a build whose slots are filled says
    that the parts in these slots fit.  A rule that complains about a part of a
    build complains about the whole, so what is left of a compatible build when
    slots are emptied is compatible. -/

namespace PcAssembly

theorem Issue.isError_iff {issue : Issue} : issue.isError = true ↔ issue.level = .error :=
  beq_iff_eq

/-- A cooler that names sockets fits no others. -/
theorem Cooler.not_supports_iff {cooler : Cooler} {socket : String} :
    (!cooler.supports socket) = true ↔
      cooler.supportedSockets ≠ [] ∧ socket ∉ cooler.supportedSockets := by
  simp [Cooler.supports]

/-- What a finding is about, without its words. -/
def Issue.kind (issue : Issue) : IssueLevel × IssueCode := (issue.level, issue.code)

namespace Rule

variable {build : ResolvedBuild}

theorem complain_eq_none_iff {broken : Bool} {message : String} :
    complain broken message = none ↔ broken = false := by
  cases broken <;> simp [complain]

theorem complain_eq_some_iff {broken : Bool} {message text : String} :
    complain broken message = some text ↔ broken = true ∧ message = text := by
  cases broken <;> simp [complain]

theorem issue?_eq_some_iff {rule : Rule} {issue : Issue} :
    rule.issue? build = some issue ↔
      ∃ message, rule.complaint? build = some message ∧
        issue = ⟨rule.level, rule.code, message⟩ := by
  rw [issue?, Option.map_eq_some_iff]
  simp only [eq_comm]

/-- One rule alone counts drives. -/
theorem eq_m2Slots_of_code {rule : Rule} (hrule : rule ∈ all)
    (hcode : rule.code = .m2SlotsExceeded) : rule = m2Slots := by
  simp only [all, List.mem_cons, List.not_mem_nil, or_false] at hrule
  rcases hrule with rfl | rfl | rfl | rfl | rfl | rfl | rfl | rfl | rfl | rfl <;>
    first
      | rfl
      | exact nomatch hcode

end Rule

namespace ResolvedBuild

variable {build : ResolvedBuild}

theorem mem_issues_iff {issue : Issue} :
    issue ∈ build.issues ↔ ∃ rule ∈ Rule.all, rule.issue? build = some issue :=
  List.mem_filterMap

/-- The findings are about the rules that complain, one for each, in the order
    of the rules. -/
theorem kinds_issues (build : ResolvedBuild) :
    build.issues.map Issue.kind =
      (Rule.all.filter fun rule => (rule.complaint? build).isSome).map fun rule =>
        (rule.level, rule.code) := by
  rw [issues]
  induction Rule.all with
  | nil => rfl
  | cons rule rest ih =>
      cases hcomplaint : rule.complaint? build with
      | none => simpa [List.filterMap_cons, Rule.issue?, hcomplaint] using ih
      | some message =>
          simpa [List.filterMap_cons, Rule.issue?, hcomplaint, Issue.kind] using ih

/-- A build is compatible exactly when no finding about it is an error. -/
theorem isCompatible_iff :
    build.isCompatible = true ↔ ∀ issue ∈ build.issues, issue.level ≠ .error := by
  rw [isCompatible, Bool.not_eq_true', List.any_eq_false]
  simp only [Issue.isError_iff, ne_eq]

/-- **A compatible build breaks no rule** but those that advise. -/
theorem complaint?_eq_none_of_isCompatible (h : build.isCompatible = true) (rule : Rule)
    (hrule : rule ∈ Rule.all) (hlevel : rule.level = .error) : rule.complaint? build = none := by
  rw [Option.eq_none_iff_forall_ne_some]
  intro message hmessage
  have hissue : rule.issue? build = some ⟨rule.level, rule.code, message⟩ :=
    Rule.issue?_eq_some_iff.mpr ⟨message, hmessage, rfl⟩
  exact isCompatible_iff.mp h _ (mem_issues_iff.mpr ⟨rule, hrule, hissue⟩) hlevel

/-- A rule about two slots finds nothing wrong with the parts that fill them in
    a compatible build. -/
private theorem unbroken_of_isCompatible {α β : Type} {x : Option α} {y : Option β} {a : α} {b : β}
    {broken : α → β → Bool} {words : α → β → String} (rule : Rule) (hrule : rule ∈ Rule.all)
    (hlevel : rule.level = .error) (h : build.isCompatible = true)
    (hslots : rule.complaint? build =
      x.bind fun a => y.bind fun b => Rule.complain (broken a b) (words a b))
    (hx : x = some a) (hy : y = some b) : broken a b = false := by
  have hsilent := complaint?_eq_none_of_isCompatible h rule hrule hlevel
  rw [hslots, hx, hy] at hsilent
  exact Rule.complain_eq_none_iff.mp hsilent

/-- In a compatible build the processor goes into the socket of the board. -/
theorem socket_eq_of_isCompatible (h : build.isCompatible = true) {cpu : Cpu}
    {board : Motherboard} (hcpu : build.cpu = some cpu) (hboard : build.motherboard = some board) :
    board.socket = cpu.socket := by
  have hfits := unbroken_of_isCompatible .boardSocket (by simp [Rule.all]) rfl h rfl hcpu hboard
  exact (bne_eq_false_iff_eq.mp hfits).symm

/-- In a compatible build the graphics card fits into the chassis. -/
theorem gpuLength_le_of_isCompatible (h : build.isCompatible = true) {gpu : Gpu}
    {chassis : Chassis} (hgpu : build.gpu = some gpu) (hchassis : build.chassis = some chassis) :
    gpu.lengthMm ≤ chassis.gpuMaxLengthMm := by
  have hfits := unbroken_of_isCompatible .gpuLength (by simp [Rule.all]) rfl h rfl hgpu hchassis
  exact UInt32.not_lt.mp (of_decide_eq_false hfits)

/-- In a compatible build the cooler fits into the chassis. -/
theorem coolerHeight_le_of_isCompatible (h : build.isCompatible = true) {cooler : Cooler}
    {chassis : Chassis} (hcooler : build.cooler = some cooler)
    (hchassis : build.chassis = some chassis) : cooler.heightMm ≤ chassis.coolerMaxHeightMm := by
  have hfits :=
    unbroken_of_isCompatible .coolerHeight (by simp [Rule.all]) rfl h rfl hcooler hchassis
  exact UInt32.not_lt.mp (of_decide_eq_false hfits)

/-- In a compatible build the cooler goes onto the processor. -/
theorem supports_of_isCompatible (h : build.isCompatible = true) {cooler : Cooler} {cpu : Cpu}
    (hcooler : build.cooler = some cooler) (hcpu : build.cpu = some cpu) :
    cooler.supports cpu.socket = true := by
  have hfits := unbroken_of_isCompatible .coolerSocket (by simp [Rule.all]) rfl h rfl hcooler hcpu
  exact Bool.not_eq_eq_eq_not.mp hfits

/-- In a compatible build the supply gives what processor and graphics card
    ask for. -/
theorem required_le_of_isCompatible (h : build.isCompatible = true) {cpu : Cpu} {gpu : Gpu}
    {psu : Psu} (hcpu : build.cpu = some cpu) (hgpu : build.gpu = some gpu)
    (hpsu : build.psu = some psu) : Wattage.required cpu gpu ≤ psu.wattage := by
  have hsilent := complaint?_eq_none_of_isCompatible h .psuWattage
    (by simp [Rule.all]) rfl
  simp only [Rule.psuWattage, hcpu, hgpu, hpsu, Option.bind_eq_bind, Option.bind_some,
    Rule.complain_eq_none_iff, decide_eq_false_iff_not] at hsilent
  exact UInt32.not_lt.mp hsilent

/-! ## Builds that are still being put together -/

/-- `part` is `whole` with some slots not yet filled and some drives left
    out. -/
structure IsPartOf (part whole : ResolvedBuild) : Prop where
  cpu : ∀ cpu, part.cpu = some cpu → whole.cpu = some cpu
  motherboard : ∀ board, part.motherboard = some board → whole.motherboard = some board
  ram : ∀ ram, part.ram = some ram → whole.ram = some ram
  gpu : ∀ gpu, part.gpu = some gpu → whole.gpu = some gpu
  psu : ∀ psu, part.psu = some psu → whole.psu = some psu
  chassis : ∀ chassis, part.chassis = some chassis → whole.chassis = some chassis
  cooler : ∀ cooler, part.cooler = some cooler → whole.cooler = some cooler
  storage : part.storage.Sublist whole.storage

/-- What a filled slot says is still said when more is filled. -/
private theorem bind_mono {α β : Type} {x y : Option α} {f g : α → Option β} {b : β}
    (hslot : ∀ a, x = some a → y = some a) (hrest : ∀ a, f a = some b → g a = some b)
    (h : x.bind f = some b) : y.bind g = some b := by
  obtain ⟨a, ha, hfa⟩ := Option.bind_eq_some_iff.mp h
  rw [hslot a ha]
  exact hrest a hfa

/-- **What a rule complains about stays** while a build is put together, word
    for word: a rule looks at filled slots only.  The one that counts drives
    may have more to count. -/
theorem IsPartOf.complaint?_eq {part whole : ResolvedBuild} (h : part.IsPartOf whole)
    {rule : Rule} (hrule : rule ∈ Rule.all) (hcode : rule.code ≠ .m2SlotsExceeded)
    {message : String} (hbroken : rule.complaint? part = some message) :
    rule.complaint? whole = some message := by
  simp only [Rule.all, List.mem_cons, List.not_mem_nil, or_false] at hrule
  rcases hrule with rfl | rfl | rfl | rfl | rfl | rfl | rfl | rfl | rfl | rfl
  · exact bind_mono h.cpu (fun _ => bind_mono h.motherboard fun _ => id) hbroken
  · exact bind_mono h.ram (fun _ => bind_mono h.motherboard fun _ => id) hbroken
  · exact bind_mono h.ram (fun _ => bind_mono h.motherboard fun _ => id) hbroken
  · exact bind_mono h.gpu (fun _ => bind_mono h.chassis fun _ => id) hbroken
  · exact bind_mono h.cooler (fun _ => bind_mono h.chassis fun _ => id) hbroken
  · exact bind_mono h.cooler (fun _ => bind_mono h.cpu fun _ => id) hbroken
  · exact bind_mono h.psu (fun _ => bind_mono h.cpu fun _ => bind_mono h.gpu fun _ => id) hbroken
  · exact bind_mono h.psu (fun _ => bind_mono h.chassis fun _ => id) hbroken
  · exact absurd rfl hcode
  · exact bind_mono h.gpu (fun _ => bind_mono h.motherboard fun _ => id) hbroken

/-- With more drives a board has no fewer to find a slot for. -/
theorem IsPartOf.m2Slots_isSome {part whole : ResolvedBuild} (h : part.IsPartOf whole)
    (hbroken : (Rule.m2Slots.complaint? part).isSome) :
    (Rule.m2Slots.complaint? whole).isSome := by
  obtain ⟨message, hmessage⟩ := Option.isSome_iff_exists.mp hbroken
  obtain ⟨board, hboard, hcomplain⟩ := Option.bind_eq_some_iff.mp hmessage
  obtain ⟨hdrives, -⟩ := Rule.complain_eq_some_iff.mp hcomplain
  have hcount := h.storage.countP_le (p := fun drive => drive.kind == .nvme)
  have hexceeded := Nat.lt_of_lt_of_le (of_decide_eq_true hdrives) hcount
  refine Option.isSome_iff_exists.mpr ⟨_, Option.bind_eq_some_iff.mpr
    ⟨board, h.motherboard board hboard, Rule.complain_eq_some_iff.mpr ⟨?_, rfl⟩⟩⟩
  exact decide_eq_true hexceeded

/-- **A broken rule stays broken** while a build is put together. -/
theorem IsPartOf.complaint?_isSome {part whole : ResolvedBuild} (h : part.IsPartOf whole)
    {rule : Rule} (hrule : rule ∈ Rule.all) (hbroken : (rule.complaint? part).isSome) :
    (rule.complaint? whole).isSome := by
  by_cases hcode : rule.code = .m2SlotsExceeded
  · have hcounts : rule = .m2Slots := Rule.eq_m2Slots_of_code hrule hcode
    subst hcounts
    exact h.m2Slots_isSome hbroken
  · obtain ⟨message, hmessage⟩ := Option.isSome_iff_exists.mp hbroken
    exact Option.isSome_of_eq_some (h.complaint?_eq hrule hcode hmessage)

/-- A part of a compatible build is compatible. -/
theorem IsPartOf.isCompatible {part whole : ResolvedBuild} (h : part.IsPartOf whole)
    (hwhole : whole.isCompatible = true) : part.isCompatible = true := by
  rw [isCompatible_iff]
  intro issue hissue hlevel
  obtain ⟨rule, hrule, hfinding⟩ := mem_issues_iff.mp hissue
  obtain ⟨message, hmessage, rfl⟩ := Rule.issue?_eq_some_iff.mp hfinding
  have hbroken := h.complaint?_isSome hrule (Option.isSome_of_eq_some hmessage)
  rw [complaint?_eq_none_of_isCompatible hwhole rule hrule hlevel] at hbroken
  exact nomatch hbroken

end ResolvedBuild

end PcAssembly
