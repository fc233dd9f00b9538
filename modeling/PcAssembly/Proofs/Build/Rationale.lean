import PcAssembly.Build.Auto
import PcAssembly.Proofs.Text.Prefix

/-! # What a rationale says

    A line of a rationale is known by how it starts.  The lines about the
    build have heads of their own, the line that stands for missing charts has
    another, and a line about a finding starts with the level of the finding.
    No head starts another, so each head finds the lines of its kind. -/

namespace PcAssembly

/-- How the line about a finding of this level starts. -/
def IssueLevel.remarkHead : IssueLevel → String
  | .error => "Error ["
  | .warning => "Advisory ["

namespace AutoBuild

/-- The heads of the lines about a build. -/
def reasonHeads : List String :=
  ["Total price: ", "Composite score: ", "Required PSU wattage: ", "Applied weights: "]

/-- The heads of the lines that are about no finding. -/
def plainHeads : List String :=
  ["Total price: ", "Composite score: ", "Required PSU wattage: ", "Applied weights: ",
   pricesUnavailable]

theorem remarkHead_prefix_remark (issue : Issue) :
    issue.level.remarkHead.toList <+: (remark issue).toList := by
  obtain ⟨level, code, message⟩ := issue
  have hline : remark ⟨level, code, message⟩ =
      level.remarkHead ++ (code.word ++ "]: " ++ message) := by
    rw [String.ext_iff]
    cases level <;> simp [remark, IssueLevel.remarkHead, toString]
  rw [hline]
  exact Text.prefix_append _ _

/-- A line about a finding starts with the level of the finding and no other. -/
theorem remarkHead_prefix_remark_iff {level : IssueLevel} {issue : Issue} :
    level.remarkHead.toList <+: (remark issue).toList ↔ issue.level = level := by
  constructor
  · intro h
    have happart : ∀ x y : IssueLevel, x.remarkHead.toList <+: y.remarkHead.toList → x = y := by
      intro x y
      cases x <;> cases y <;> decide
    rcases List.prefix_or_prefix_of_prefix h (remarkHead_prefix_remark issue) with hhead | hhead
    · exact (happart _ _ hhead).symm
    · exact happart _ _ hhead
  · rintro rfl
    exact remarkHead_prefix_remark issue

/-- Each line about a build starts with a head of its own. -/
theorem exists_reasonHead_of_mem_reasons {budget : Decimal} {weights : Weights}
    {build : ChosenBuild} {line : String} (h : line ∈ reasons budget weights build) :
    ∃ head ∈ reasonHeads, head.toList <+: line.toList := by
  simp only [reasons, List.mem_cons, List.not_mem_nil, or_false] at h
  rcases h with rfl | rfl | rfl | rfl
  · refine ⟨"Total price: ", by decide, ?_⟩
    simp only [String.append_assoc]
    exact Text.prefix_append _ _
  · refine ⟨"Composite score: ", by decide, ?_⟩
    exact Text.prefix_append _ _
  · refine ⟨"Required PSU wattage: ", by decide, ?_⟩
    simp only [String.append_assoc]
    exact Text.prefix_append _ _
  · refine ⟨"Applied weights: ", by decide, ?_⟩
    exact Text.prefix_append _ _

/-- The lines about a build each start with a plain head. -/
theorem exists_plainHead_of_mem_reasons {budget : Decimal} {weights : Weights}
    {build : ChosenBuild} {line : String} (h : line ∈ reasons budget weights build) :
    ∃ head ∈ plainHeads, head.toList <+: line.toList := by
  obtain ⟨head, hhead, hline⟩ := exists_reasonHead_of_mem_reasons h
  exact ⟨head, List.mem_append_left [pricesUnavailable] hhead, hline⟩

/-- A line with a plain head is about no finding. -/
theorem remarkHead_apart_of_plainHead {head line : String} (hhead : head ∈ plainHeads)
    (hline : head.toList <+: line.toList) (level : IssueLevel) :
    ¬ level.remarkHead.toList <+: line.toList := by
  intro h
  have happart : ∀ head ∈ plainHeads, ¬ (level.remarkHead.toList <+: head.toList ∨
      head.toList <+: level.remarkHead.toList) := by
    cases level <;> decide
  exact happart head hhead (List.prefix_or_prefix_of_prefix h hline)

/-- **A rationale reports the findings about a build**: a line with the head
    of a level is there exactly when some finding has that level. -/
theorem exists_remark_iff {workshop : Workshop} {settings : EngineSettings}
    {request : BuildRequest} {build : ChosenBuild} (level : IssueLevel) :
    (∃ line ∈ (finish workshop settings request build).rationale,
      level.remarkHead.toList <+: line.toList) ↔
      ∃ issue ∈ build.selection.issues workshop.lookup, issue.level = level := by
  constructor
  · rintro ⟨line, hmem, hhead⟩
    -- only the last of the three parts of a rationale has lines with this head
    rcases List.mem_append.mp hmem with hplain | hremark
    · rcases List.mem_append.mp hplain with hreason | hnotice
      · obtain ⟨head, hplainHead, hline⟩ := exists_plainHead_of_mem_reasons hreason
        exact absurd hhead (remarkHead_apart_of_plainHead hplainHead hline level)
      · have hline : line = pricesUnavailable := by
          split at hnotice
          · exact nomatch hnotice
          · exact List.mem_singleton.mp hnotice
        have hplainHead : line ∈ plainHeads := by
          rw [hline]
          decide
        exact absurd hhead (remarkHead_apart_of_plainHead hplainHead (List.prefix_refl _) level)
    · obtain ⟨issue, hissue, rfl⟩ := List.mem_map.mp hremark
      exact ⟨issue, hissue, remarkHead_prefix_remark_iff.mp hhead⟩
  · rintro ⟨issue, hissue, hlevel⟩
    exact ⟨remark issue, List.mem_append_right _ (List.mem_map.mpr ⟨issue, hissue, rfl⟩),
      remarkHead_prefix_remark_iff.mpr hlevel⟩

/-! ## The line that stands for missing charts -/

theorem pricesUnavailable_not_mem_reasons (budget : Decimal) (weights : Weights)
    (build : ChosenBuild) : pricesUnavailable ∉ reasons budget weights build := by
  intro hmem
  obtain ⟨head, hhead, hline⟩ := exists_reasonHead_of_mem_reasons hmem
  have happart : ∀ head ∈ reasonHeads, ¬ head.toList <+: pricesUnavailable.toList := by
    decide
  exact happart head hhead hline

theorem pricesUnavailable_not_mem_remarks (issues : List Issue) :
    pricesUnavailable ∉ issues.map remark := by
  intro hmem
  obtain ⟨issue, -, hremark⟩ := List.mem_map.mp hmem
  have hhead := remarkHead_prefix_remark issue
  rw [hremark] at hhead
  exact remarkHead_apart_of_plainHead (by decide) (List.prefix_refl _) issue.level hhead

section Notice

variable {workshop : Workshop} {settings : EngineSettings} {request : BuildRequest}
  {build : ChosenBuild}

/-- Every question about the prices of the build is answered by a series. -/
def pricesAnswered (workshop : Workshop) (settings : EngineSettings) (build : ChosenBuild) :
    Bool :=
  (priceQueries workshop.today settings.priceWindowDays build).all fun query =>
    (query.chart? workshop.prices).isSome

theorem rationale_finish :
    (finish workshop settings request build).rationale =
      reasons (Decimal.ofInt64 request.budget) (Weights.ofTags request.priorities) build
        ++ (if pricesAnswered workshop settings build then [] else [pricesUnavailable])
        ++ (build.selection.issues workshop.lookup).map remark := by
  rw [finish, pricesAnswered]
  simp only [List.all_map]
  rfl

/-- The line is there once if some question is not answered, else not at all. -/
theorem count_pricesUnavailable :
    (finish workshop settings request build).rationale.count pricesUnavailable =
      if pricesAnswered workshop settings build then 0 else 1 := by
  rw [rationale_finish, List.count_append, List.count_append,
    List.count_eq_zero.mpr (pricesUnavailable_not_mem_reasons _ _ _),
    List.count_eq_zero.mpr (pricesUnavailable_not_mem_remarks _)]
  cases pricesAnswered workshop settings build <;> rfl

/-- Without the line, a rationale does not depend on prices. -/
theorem filter_rationale :
    (finish workshop settings request build).rationale.filter (· ≠ pricesUnavailable) =
      reasons (Decimal.ofInt64 request.budget) (Weights.ofTags request.priorities) build
        ++ (build.selection.issues workshop.lookup).map remark := by
  have hkept : ∀ lines : List String, pricesUnavailable ∉ lines →
      lines.filter (· ≠ pricesUnavailable) = lines := by
    intro lines habsent
    refine List.filter_eq_self.mpr fun line hline => decide_eq_true ?_
    rintro rfl
    exact habsent hline
  rw [rationale_finish, List.filter_append, List.filter_append,
    hkept _ (pricesUnavailable_not_mem_reasons _ _ _),
    hkept _ (pricesUnavailable_not_mem_remarks _)]
  cases pricesAnswered workshop settings build <;> simp

end Notice

end AutoBuild

end PcAssembly
