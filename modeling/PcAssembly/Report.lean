import PcAssembly.Compatibility

/-! # Reports in data texts

    A finding is written with its level and code as words; a report is a flag
    and the list of findings. -/

namespace PcAssembly

/-- The fields of a finding, in order. -/
def Issue.fieldNames : List String := ["level", "code", "message"]

/-- A level in a data value. -/
def IssueLevel.ofJson? (value : Json) : Option IssueLevel :=
  (value.word? Json.isNull).bind ofWord?

/-- A code in a data value. -/
def IssueCode.ofJson? (value : Json) : Option IssueCode :=
  (value.word? Json.isNull).bind ofWord?

/-- The finding in a data value. -/
def Issue.ofJson? (value : Json) : Option Issue := do
  match ← value.fields? (Json.Layout.plain fieldNames) with
  | [level, code, message] =>
      return {
        level := ← Json.required IssueLevel.ofJson? level
        code := ← Json.required IssueCode.ofJson? code
        message := ← Json.required Json.string? message }
  | _ => none

/-- The finding as a value. -/
def Issue.toJson (issue : Issue) : Json :=
  .record (fieldNames.zip
    [.text issue.level.word, .text issue.code.word, .text issue.message])

/-- The fields of a report, in order. -/
def Report.fieldNames : List String := ["isCompatible", "issues"]

/-- The report in a data value. -/
def Report.ofJson? (value : Json) : Option Report := do
  match ← value.fields? (Json.Layout.plain fieldNames) with
  | [isCompatible, issues] =>
      return {
        isCompatible := ← Json.required Json.bool? isCompatible
        issues := ← Json.required (Json.list? Issue.ofJson?) issues }
  | _ => none

/-- The report as a value. -/
def Report.toJson (report : Report) : Json :=
  .record (fieldNames.zip
    [.bool report.isCompatible, .array (report.issues.map Issue.toJson)])

end PcAssembly
