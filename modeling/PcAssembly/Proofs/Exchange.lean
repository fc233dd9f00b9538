import PcAssembly.Proofs.Json.Records
import PcAssembly.Report
import PcAssembly.Request
import PcAssembly.Selection

/-! # What is exchanged with a client

    Selections, requests and reports are records, and a report is a record of
    records.  Each field is stated by the value that it is written as and no
    other, but for the level and the code of a finding, which are words, and for
    a list of findings. -/

namespace PcAssembly

namespace Json

/-- A flag is read from true and false alone. -/
theorem bool?_eq_some_iff {value : Json} {b : Bool} : value.bool? = some b ↔ value = .bool b := by
  constructor
  · intro h
    cases value with
    | bool b' => exact congrArg Json.bool (Option.some.inj h)
    | _ => cases h
  · rintro rfl
    rfl

/-- A value or null is what it is written as. -/
theorem nullable?_eq_some_iff {α : Type} {read : Json → Option α} {write : α → Json}
    (hread : ∀ value x, read value = some x ↔ value = write x) (hwrite : ∀ x, write x ≠ .null)
    {value : Json} {x : Option α} : nullable? read value = some x ↔ value = ofOption write x := by
  cases x with
  | none =>
      cases value with
      | null => exact iff_of_true rfl rfl
      | _ => simp [nullable?, ofOption]
  | some x =>
      rw [ofOption, ← hread]
      cases value with
      | null =>
          have hnull : read .null ≠ some x := fun h => hwrite x ((hread _ _).mp h).symm
          simp [nullable?, hnull]
      | _ => simp [nullable?]

/-- A list is read item by item. -/
theorem list?_eq_some_iff {α : Type} {read : Json → Option α} {value : Json} {xs : List α} :
    list? read value = some xs ↔
      ∃ items, value = .array items ∧ List.Forall₂ (fun item x => read item = some x) items xs := by
  cases value with
  | array items =>
      rw [list?, mapM_eq_some_iff, ← List.forall₂_eq_eq_eq, List.forall₂_map_left_iff,
        List.forall₂_map_right_iff]
      simp
  | _ => simp [list?]

/-- A list of values each of which is what it is written as. -/
theorem list?_eq_some_iff_map {α : Type} {read : Json → Option α} {write : α → Json}
    (hread : ∀ value x, read value = some x ↔ value = write x) {value : Json} {xs : List α} :
    list? read value = some xs ↔ value = .array (xs.map write) := by
  have hitems (items : List Json) :
      List.Forall₂ (fun item x => item = write x) items xs ↔ items = xs.map write := by
    rw [← List.forall₂_map_right_iff, List.forall₂_eq_eq_eq]
  simp only [list?_eq_some_iff, hread, hitems]
  exact ⟨fun ⟨_, hvalue, hitems⟩ => hitems ▸ hvalue, fun hvalue => ⟨_, hvalue, rfl⟩⟩

/-- An id is read from the integer it is written as, and from nothing else. -/
theorem int64?_eq_some_iff_ofInt64 {value : Json} {x : Int64} :
    value.int64? = some x ↔ value = .ofInt64 x :=
  int64?_eq_some_iff

/-- Every id fits in the integers that are kept as they are. -/
theorem Rereads.ofInt64 (n : Int64) : Rereads (.ofInt64 n) (.ofInt64 n) :=
  .int n.minValue_le_toInt (Int.lt_of_le_of_lt n.toInt_le (by decide))

/-- A value or null stays as it is if the value does. -/
theorem Rereads.ofOption {α : Type} {write : α → Json} (h : ∀ x, Rereads (write x) (write x))
    (x : Option α) : Rereads (.ofOption write x) (.ofOption write x) := by
  cases x with
  | none => exact .null
  | some x => exact h x

/-- A list stays as it is if its items do. -/
theorem Rereads.list {α : Type} {write : α → Json} (h : ∀ x, Rereads (write x) (write x))
    (xs : List α) : Rereads (.array (xs.map write)) (.array (xs.map write)) := by
  refine .array (.of_forall fun item hitem => ?_)
  obtain ⟨x, -, rfl⟩ := List.mem_map.mp hitem
  exact h x

/-- The values that state a word: the text itself, or an object with the word as
    the name of its one member, which is null. -/
inductive StatesWord (word : String) : Json → Prop
  | text : StatesWord word (.text word)
  | name : StatesWord word (.object [(some word, .null)])

/-- A word is read from the values that state it. -/
theorem word?_eq_some_iff {value : Json} {word : String} :
    value.word? isNull = some word ↔ StatesWord word value := by
  constructor
  · intro h
    unfold word? at h
    split at h
    · cases h
      exact .text
    · rename_i value
      split at h
      · rename_i hnull
        cases h
        cases value with
        | null => exact .name
        | _ => cases hnull
      · cases h
    · cases h
  · rintro (_ | _)
    · rfl
    · rfl

end Json

namespace Selection

/-- A slot, which may be missing and is null if it is unfilled. -/
def slot (name : String) (id : Selection → Option Int64) : Json.Field Selection where
  name := name
  default := some .null
  write selection := .ofOption Json.ofInt64 (id selection)

/-- The drives, which may be missing if there are none. -/
def drives : Json.Field Selection where
  name := "storage"
  default := some (.array [])
  write selection := .array (selection.storage.map Json.ofInt64)

/-- The fields of a selection. -/
def fields : List (Json.Field Selection) :=
  [slot "cpu" cpu, slot "motherboard" motherboard, slot "ram" ram, slot "gpu" gpu, slot "psu" psu,
   slot "case" chassis, slot "cooler" cooler, drives]

/-- An id is read from what its slot holds. -/
theorem id?_eq_some_iff (name : String) (id : Selection → Option Int64) (selection : Selection)
    (found : Option Json) :
    id? found = some (id selection) ↔ (slot name id).Holds selection found := by
  refine (slot name id).optional_eq_some_iff (fun value => ?_) ⟨.null, rfl, rfl⟩
  exact Json.nullable?_eq_some_iff (fun _ _ => Json.int64?_eq_some_iff_ofInt64) nofun

/-- The drives are read from what their field holds. -/
theorem drives?_eq_some_iff (selection : Selection) (found : Option Json) :
    Json.optional [] (Json.list? Json.int64?) found = some selection.storage ↔
      drives.Holds selection found := by
  refine drives.optional_eq_some_iff (fun value => ?_) ⟨.array [], rfl, rfl⟩
  exact Json.list?_eq_some_iff_map fun _ _ => Json.int64?_eq_some_iff_ofInt64

/-- The values that are read as a selection. -/
theorem ofJson?_eq_some_iff {value : Json} {selection : Selection} :
    ofJson? value = some selection ↔ Json.StatesRecord fields value selection := by
  refine Json.eq_some_iff_statesRecord ofJson? (fun _ => rfl) fun found hlength => ?_
  match found, hlength with
  | [cpu, motherboard, ram, gpu, psu, chassis, cooler, storage], _ =>
      cases selection
      simp [fields, ← id?_eq_some_iff, ← drives?_eq_some_iff, Option.bind_eq_some_iff]

/-- Every field of a selection is read back as it was written. -/
theorem rereads_write (selection : Selection) :
    ∀ field ∈ fields, Json.Rereads (field.write selection) (field.write selection) := by
  simp [fields, slot, drives, Json.Rereads.ofOption Json.Rereads.ofInt64,
    Json.Rereads.list Json.Rereads.ofInt64]

/-- Every field of a selection is stated by what it is written as. -/
theorem states_write (selection : Selection) :
    ∀ field ∈ fields, field.States selection (field.write selection) := by
  simp [fields, slot, drives]

/-- A selection is read back as the value it is written as. -/
theorem rereads_toJson (selection : Selection) : Json.Rereads selection.toJson selection.toJson :=
  Json.Field.rereads_record selection.rereads_write

/-- A selection is read from the value it is written as. -/
theorem ofJson?_toJson (selection : Selection) : ofJson? selection.toJson = some selection :=
  ofJson?_eq_some_iff.mpr (Json.statesRecord_record (by decide) selection.states_write)

/-- **Selections are a format.** -/
theorem isRecordFormat : Json.IsRecordFormat fields toJson ofJson? :=
  .of_fields (by decide) (fun _ => rfl) rereads_write states_write
    fun _ _ => ofJson?_eq_some_iff

end Selection

namespace BuildRequest

def budgetField : Json.Field BuildRequest where
  name := "budget"
  write request := .ofInt64 request.budget

/-- The tags, which may be missing if there are none. -/
def prioritiesField : Json.Field BuildRequest where
  name := "priorities"
  default := some (.array [])
  write request := .array (request.priorities.map Json.text)

/-- The platform, which may be missing and is null if none is asked for. -/
def platformField : Json.Field BuildRequest where
  name := "platform"
  default := some .null
  write request := .ofOption Json.text request.platform

/-- The fields of a request. -/
def fields : List (Json.Field BuildRequest) :=
  [budgetField, prioritiesField, platformField]

/-- The budget is read from what its field holds. -/
theorem budget?_eq_some_iff (request : BuildRequest) (found : Option Json) :
    Json.required Json.int64? found = some request.budget ↔ budgetField.Holds request found :=
  budgetField.required_eq_some_iff (fun _ => Json.int64?_eq_some_iff_ofInt64) rfl

/-- The tags are read from what their field holds. -/
theorem priorities?_eq_some_iff (request : BuildRequest) (found : Option Json) :
    Json.optional [] (Json.list? Json.string?) found = some request.priorities ↔
      prioritiesField.Holds request found := by
  refine prioritiesField.optional_eq_some_iff (fun value => ?_) ⟨.array [], rfl, rfl⟩
  exact Json.list?_eq_some_iff_map fun _ _ => Json.string?_eq_some_iff

/-- The platform is read from what its field holds. -/
theorem platform?_eq_some_iff (request : BuildRequest) (found : Option Json) :
    Json.optional none (Json.nullable? Json.string?) found = some request.platform ↔
      platformField.Holds request found := by
  refine platformField.optional_eq_some_iff (fun value => ?_) ⟨.null, rfl, rfl⟩
  exact Json.nullable?_eq_some_iff (fun _ _ => Json.string?_eq_some_iff) nofun

/-- The values that are read as a request. -/
theorem ofJson?_eq_some_iff {value : Json} {request : BuildRequest} :
    ofJson? value = some request ↔ Json.StatesRecord fields value request := by
  refine Json.eq_some_iff_statesRecord ofJson? (fun _ => rfl) fun found hlength => ?_
  match found, hlength with
  | [budget, priorities, platform], _ =>
      cases request
      simp [fields, ← budget?_eq_some_iff, ← priorities?_eq_some_iff, ← platform?_eq_some_iff,
        Option.bind_eq_some_iff]

/-- **Requests are a format.** -/
theorem isRecordFormat : Json.IsRecordFormat fields toJson ofJson? := by
  refine .of_fields (by decide) (fun _ => rfl) (fun request => ?_) (fun request => ?_)
    fun _ _ => ofJson?_eq_some_iff
  · simp [fields, budgetField, prioritiesField, platformField, Json.Rereads.ofInt64,
      Json.Rereads.texts, Json.Rereads.ofOption Json.Rereads.text]
  · simp [fields, budgetField, prioritiesField, platformField]

end BuildRequest

/-! ### Findings and reports -/

/-- A level is found by its word. -/
theorem IssueLevel.ofWord?_eq_some_iff {word : String} {level : IssueLevel} :
    ofWord? word = some level ↔ word = level.word :=
  find?_word_eq_some_iff fun level => by cases level <;> rfl

/-- A level is read from the values that state its word. -/
theorem IssueLevel.ofJson?_eq_some_iff {value : Json} {level : IssueLevel} :
    ofJson? value = some level ↔ Json.StatesWord level.word value := by
  simp only [ofJson?, Option.bind_eq_some_iff, Json.word?_eq_some_iff, ofWord?_eq_some_iff,
    exists_eq_right]

/-- A code is found by its word. -/
theorem IssueCode.ofWord?_eq_some_iff {word : String} {code : IssueCode} :
    ofWord? word = some code ↔ word = code.word :=
  find?_word_eq_some_iff fun code => by cases code <;> rfl

/-- A code is read from the values that state its word. -/
theorem IssueCode.ofJson?_eq_some_iff {value : Json} {code : IssueCode} :
    ofJson? value = some code ↔ Json.StatesWord code.word value := by
  simp only [ofJson?, Option.bind_eq_some_iff, Json.word?_eq_some_iff, ofWord?_eq_some_iff,
    exists_eq_right]

namespace Issue

def levelField : Json.Field Issue where
  name := "level"
  write issue := .text issue.level.word
  States issue := Json.StatesWord issue.level.word

def codeField : Json.Field Issue where
  name := "code"
  write issue := .text issue.code.word
  States issue := Json.StatesWord issue.code.word

def messageField : Json.Field Issue where
  name := "message"
  write issue := .text issue.message

/-- The fields of a finding. -/
def fields : List (Json.Field Issue) :=
  [levelField, codeField, messageField]

/-- The level is read from what its field holds. -/
theorem level?_eq_some_iff (issue : Issue) (found : Option Json) :
    Json.required IssueLevel.ofJson? found = some issue.level ↔ levelField.Holds issue found  :=
  levelField.required_eq_some_iff (fun _ => IssueLevel.ofJson?_eq_some_iff) rfl

/-- The code is read from what its field holds. -/
theorem code?_eq_some_iff (issue : Issue) (found : Option Json) :
    Json.required IssueCode.ofJson? found = some issue.code ↔ codeField.Holds issue found  :=
  codeField.required_eq_some_iff (fun _ => IssueCode.ofJson?_eq_some_iff) rfl

/-- The message is read from what its field holds. -/
theorem message?_eq_some_iff (issue : Issue) (found : Option Json) :
    Json.required Json.string? found = some issue.message ↔ messageField.Holds issue found :=
  messageField.required_eq_some_iff (fun _ => Json.string?_eq_some_iff) rfl

/-- The values that are read as a finding. -/
theorem ofJson?_eq_some_iff {value : Json} {issue : Issue} :
    ofJson? value = some issue ↔ Json.StatesRecord fields value issue := by
  refine Json.eq_some_iff_statesRecord ofJson? (fun _ => rfl) fun found hlength => ?_
  match found, hlength with
  | [level, code, message], _ =>
      cases issue
      simp [fields, ← level?_eq_some_iff, ← code?_eq_some_iff, ← message?_eq_some_iff,
        Option.bind_eq_some_iff]

/-- Every field of a finding is read back as it was written. -/
theorem rereads_write (issue : Issue) :
    ∀ field ∈ fields, Json.Rereads (field.write issue) (field.write issue) := by
  simp [fields, levelField, codeField, messageField, Json.Rereads.text]

/-- Every field of a finding is stated by what it is written as. -/
theorem states_write (issue : Issue) :
    ∀ field ∈ fields, field.States issue (field.write issue) := by
  simp [fields, levelField, codeField, messageField, Json.StatesWord.text]

/-- **Findings are a format.** -/
theorem isRecordFormat : Json.IsRecordFormat fields toJson ofJson? :=
  .of_fields (by decide) (fun _ => rfl) rereads_write states_write
    fun _ _ => ofJson?_eq_some_iff

end Issue

namespace Report

def flagField : Json.Field Report where
  name := "isCompatible"
  write report := .bool report.isCompatible

/-- The findings, each in any of its own forms. -/
def issuesField : Json.Field Report where
  name := "issues"
  write report := .array (report.issues.map Issue.toJson)
  States report value := ∃ items, value = .array items ∧
    List.Forall₂ (Json.StatesRecord Issue.fields) items report.issues

/-- The fields of a report. -/
def fields : List (Json.Field Report) :=
  [flagField, issuesField]

/-- The flag is read from what its field holds. -/
theorem flag?_eq_some_iff (report : Report) (found : Option Json) :
    Json.required Json.bool? found = some report.isCompatible ↔ flagField.Holds report found :=
  flagField.required_eq_some_iff (fun _ => Json.bool?_eq_some_iff) rfl

/-- The findings are read from what their field holds, item by item. -/
theorem issues?_eq_some_iff (report : Report) (found : Option Json) :
    Json.required (Json.list? Issue.ofJson?) found = some report.issues ↔
      issuesField.Holds report found := by
  refine issuesField.required_eq_some_iff (fun value => ?_) rfl
  simp only [Json.list?_eq_some_iff, Issue.ofJson?_eq_some_iff]
  rfl

/-- The values that are read as a report. -/
theorem ofJson?_eq_some_iff {value : Json} {report : Report} :
    ofJson? value = some report ↔ Json.StatesRecord fields value report := by
  refine Json.eq_some_iff_statesRecord ofJson? (fun _ => rfl) fun found hlength => ?_
  match found, hlength with
  | [isCompatible, issues], _ =>
      cases report
      simp [fields, ← flag?_eq_some_iff, ← issues?_eq_some_iff, Option.bind_eq_some_iff]

/-- **Reports are a format.** -/
theorem isRecordFormat : Json.IsRecordFormat fields toJson ofJson? := by
  refine .of_fields (by decide) (fun _ => rfl) (fun report => ?_) (fun report => ?_)
    fun _ _ => ofJson?_eq_some_iff
  · have hissue (issue : Issue) : Json.Rereads issue.toJson issue.toJson :=
      Json.Field.rereads_record (Issue.rereads_write issue)
    simp [fields, flagField, issuesField, Json.Rereads.bool, Json.Rereads.list hissue]
  · have hissue (issue : Issue) : Json.StatesRecord Issue.fields issue.toJson issue :=
      Json.statesRecord_record (by decide) (Issue.states_write issue)
    have hissues : List.Forall₂ (Json.StatesRecord Issue.fields)
        (report.issues.map Issue.toJson) report.issues := by
      rw [List.forall₂_map_left_iff, List.forall₂_same]
      exact fun issue _ => hissue issue
    simp [fields, flagField, issuesField, hissues]

end Report

/-- **What is exchanged survives.** Selections, requests, reports and the
    findings in them are read back from the texts they are written as, in either
    layout; whatever else is read as one of them, with its fields in another
    order, among others or as an array, without those that may be missing, with
    blanks and escapes, is written again as that same text. -/
theorem exchange_formats :
    Json.IsRecordFormat Selection.fields Selection.toJson Selection.ofJson? ∧
      Json.IsRecordFormat BuildRequest.fields BuildRequest.toJson BuildRequest.ofJson? ∧
      Json.IsRecordFormat Report.fields Report.toJson Report.ofJson? ∧
      Json.IsRecordFormat Issue.fields Issue.toJson Issue.ofJson? :=
  ⟨Selection.isRecordFormat, BuildRequest.isRecordFormat, Report.isRecordFormat,
    Issue.isRecordFormat⟩

example : Json.decode? BuildRequest.ofJson?
    " \x7b \"platform\" : \"\\u0061MD\", \"note\" : [\"\\uD800\"], \"budget\" : -5 \x7d " =
      some { budget := -5, platform := some "aMD" } := by
  cbv

end PcAssembly
