import PcAssembly.Program
import PcAssembly.Proofs.Build.Printed
import PcAssembly.Proofs.CommandLine.Selection
import PcAssembly.Proofs.Part.Store

/-! # How a run ends

    A run ends in one of few ways: its settings, its part records or its catalog
    cannot be used, its request is refused or cannot be met, the search breaks
    down, or something is printed.  The exit code tells which, and nothing is
    printed unless there is a report or a result: what is printed is the text of
    a data value from which the report or the result can be read again.  In
    particular a run that builds exits with zero exactly if it prints a result,
    and the selection of this result, checked in the same world, passes. -/

namespace PcAssembly

/-! ## Errors of a request -/

namespace AutoBuild

variable {workshop : Workshop} {settings : EngineSettings} {request : BuildRequest}

theorem error_of_chooseFrom {pools : CandidatePools} {machine : Machine} {weights : Weights}
    {budget : Decimal} {error : BuildError}
    (h : chooseFrom pools machine weights budget = .error error) :
    (∃ shortage, error = .notPossible budget shortage) ∨ ∃ message, error = .internal message := by
  rw [chooseFrom] at h
  split at h
  · exact Or.inl ⟨_, (Except.error.inj h).symm⟩
  · split at h
    · exact Or.inr ⟨_, (Except.error.inj h).symm⟩
    · split at h
      · cases h
      · exact Or.inl ⟨_, (Except.error.inj h).symm⟩

/-- A request that is not cancelled fails with an error of the catalog, or it is
    refused, or it cannot be met, or the search breaks down.  No error of the
    price service gets out. -/
theorem error_of_run {error : BuildError} (h : run workshop settings request false = .error error) :
    workshop.catalog = .error error ∨ (∃ field reason, error = .invalidRequest field reason) ∨
      (∃ budget shortage, error = .notPossible budget shortage) ∨
      ∃ message, error = .internal message := by
  have hchoose : choose workshop settings request = .error error := by
    rw [run] at h
    cases hchoose : choose workshop settings request with
    | error fault =>
        rw [hchoose] at h
        exact congrArg Except.error (Except.error.inj h)
    | ok build =>
        rw [hchoose] at h
        cases h
  rw [choose] at hchoose
  split at hchoose
  · exact Or.inr (Or.inl ⟨_, _, (Except.error.inj hchoose).symm⟩)
  · split at hchoose
    · rename_i fault hcatalog
      exact Or.inl (hcatalog.trans (congrArg Except.error (Except.error.inj hchoose)))
    · rcases error_of_chooseFrom hchoose with ⟨shortage, hshortage⟩ | hinternal
      · exact Or.inr (Or.inr (Or.inl ⟨_, shortage, hshortage⟩))
      · exact Or.inr (Or.inr (Or.inr hinternal))

end AutoBuild

/-- The settings are what the file states, or the defaults if nothing is
    there. -/
theorem Config.load_eq_ok_iff {world : World Id} {path : String} {stated : Config} :
    load world path = .ok stated ↔
      (world.isThere path = true → read world path = .ok stated) ∧
      (world.isThere path = false → stated = {}) := by
  have hload : load world path =
      bif world.isThere path then read world path else .ok {} := by
    rw [load]
    cases hthere : world.isThere path <;> rfl
  rw [hload]
  cases hthere : world.isThere path with
  | false =>
      exact ⟨fun hread => ⟨nofun, fun _ => (Except.ok.inj hread).symm⟩,
        fun hdefault => congrArg Except.ok (hdefault.2 rfl).symm⟩
  | true => exact ⟨fun hread => ⟨fun _ => hread, nofun⟩, fun hread => hread.1 rfl⟩

namespace Program

/-- A run gets as far as its command, with these settings and part records. -/
structure Reaches (world : World Id) (commandLine : CommandLine) (config : Config)
    (store : PartStore) : Prop where
  settings : ∃ stated,
    (world.isThere commandLine.configPath = true →
      Config.read world commandLine.configPath = .ok stated) ∧
    (world.isThere commandLine.configPath = false → stated = {}) ∧
    stated.withPaths commandLine = config
  accepted : config.fault? world.hostNames = none
  parts : PartStore.ofFile (world.fileNamed config.files.componentsPath) = .ok store

/-- The catalog of a run with these settings. -/
def catalog (world : World Id) (config : Config) : Except CatalogFault (List CatalogItem) :=
  CatalogFile.ofFile config.files.catalogPath (world.fileNamed config.files.catalogPath)

/-- What a run builds from. -/
def workshop (world : World Id) (config : Config) (store : PartStore) : Workshop where
  machine := world.machine
  lookup := store.get?
  catalog := (catalog world config).mapError .catalog
  prices := config.priceService world
  today := world.today

variable {world : World Id} {words : List String} {commandLine : CommandLine} {config : Config}
  {store : PartStore} {request : BuildRequest}

/-- A run reads its settings, looks at them, reads the part records, and carries
    out its command. -/
theorem run_eq (hread : CommandLine.ofWords words = .ok commandLine) :
    run world words =
      (match (Config.load world commandLine.configPath : Except BuildError Config) with
      | .error error => Outcome.unreadableConfig commandLine.configPath error
      | .ok stated =>
          match (stated.withPaths commandLine).fault? world.hostNames with
          | some error => .refusedConfig error
          | none =>
              match PartStore.ofFile
                  (world.fileNamed (stated.withPaths commandLine).files.componentsPath) with
              | .error error => .unreadableParts error
              | .ok store =>
                  execute world (stated.withPaths commandLine) store commandLine.command) := by
  rw [run, hread]
  show (match (Config.load world commandLine.configPath : Except BuildError Config) with
      | .error error => _
      | .ok stated => _) = _
  cases (Config.load world commandLine.configPath : Except BuildError Config) with
  | error error => rfl
  | ok stated => rfl

/-- A run that gets as far as its command carries it out. -/
theorem run_of_reaches (hread : CommandLine.ofWords words = .ok commandLine)
    (h : Reaches world commandLine config store) :
    run world words = execute world config store commandLine.command := by
  obtain ⟨⟨stated, hfile, hdefault, rfl⟩, haccepted, hparts⟩ := h
  rw [run_eq hread, Config.load_eq_ok_iff.mpr ⟨hfile, hdefault⟩]
  simp only [haccepted, hparts]

/-- A run that does not get as far as its command prints nothing and fails. -/
theorem run_of_not_reaches (hread : CommandLine.ofWords words = .ok commandLine)
    (h : ¬ ∃ config store, Reaches world commandLine config store) :
    Outcome.output (run world words) = "" ∧ Outcome.exitCode (run world words) = 1 := by
  rw [run_eq hread]
  split
  · exact ⟨rfl, rfl⟩
  · rename_i stated hload
    split
    · exact ⟨rfl, rfl⟩
    · rename_i haccepted
      split
      · exact ⟨rfl, rfl⟩
      · rename_i store hparts
        obtain ⟨hfile, hdefault⟩ := Config.load_eq_ok_iff.mp hload
        exact absurd ⟨_, store, ⟨stated, hfile, hdefault, rfl⟩, haccepted, hparts⟩ h

/-- A run that checks a selection reports on it. -/
theorem run_validate {selection : Selection}
    (hread : CommandLine.ofWords words = .ok commandLine)
    (hcommand : commandLine.command = .validate selection)
    (h : Reaches world commandLine config store) :
    run world words = Outcome.ofReport (selection.report store.get?) := by
  rw [run_of_reaches hread h, hcommand]
  rfl

/-- A run that builds ends as its build does. -/
theorem run_autoBuild (hread : CommandLine.ofWords words = .ok commandLine)
    (hcommand : commandLine.command = .autoBuild request)
    (h : Reaches world commandLine config store) :
    run world words = Outcome.ofBuild
      (AutoBuild.run (workshop world config store) config.engineSettings request false) := by
  rw [run_of_reaches hread h, hcommand]
  rfl

/-! ## Exit codes -/

/-- Why a run that builds has failed, with the exit code that says so. -/
inductive Failure (world : World Id) (config : Config) : BuildError → UInt8 → Prop
  | catalog (fault : CatalogFault) (h : catalog world config = .error fault) :
      Failure world config (.catalog fault) 1
  | invalidRequest (field reason : String) :
      Failure world config (.invalidRequest field reason) 2
  | notPossible (budget : Decimal) (shortage : Shortage) :
      Failure world config (.notPossible budget shortage) 2
  | internal (message : String) : Failure world config (.internal message) 3

theorem Failure.ne_zero {error : BuildError} {code : UInt8} (h : Failure world config error code) :
    code ≠ 0 := by
  cases h <;> decide

/-- The severity of an error gives the exit code of its cause. -/
theorem failure_of_run {settings : EngineSettings} {error : BuildError}
    (h : AutoBuild.run (workshop world config store) settings request false = .error error) :
    Failure world config error error.severity.exitCode := by
  rcases AutoBuild.error_of_run h with hcatalog | ⟨field, reason, rfl⟩ |
    ⟨budget, shortage, rfl⟩ | ⟨message, rfl⟩
  · rw [workshop] at hcatalog
    cases hfile : catalog world config with
    | ok items =>
        rw [hfile] at hcatalog
        exact nomatch hcatalog
    | error fault =>
        rw [hfile] at hcatalog
        cases hcatalog
        exact .catalog fault hfile
  · exact .invalidRequest field reason
  · exact .notPossible budget shortage
  · exact .internal message

/-- The output is the text of a result and says what the result holds. -/
structure Prints (outcome : Outcome) (result : BuildResult) : Prop where
  output : outcome.output = result.toJson.pretty ++ "\n"
  states : ∃ value, Json.ofText? outcome.output = some value ∧ result.IsStatedBy value

/-- Nobody takes an empty output for a result. -/
theorem not_exists_prints {outcome : Outcome} (h : outcome.output = "") :
    ¬ ∃ result, Prints outcome result := by
  rintro ⟨result, -, value, htext, -⟩
  rw [h] at htext
  exact nomatch htext

/-- A line end is blank. -/
theorem areBlanks_lineEnd : Json.AreBlanks "\n".toList := by
  simp [Json.AreBlanks, Json.isSpace]

/-- What is printed is read back as what is written is. -/
theorem ofText?_printed {value value' : Json} (h : Json.Rereads value value') :
    Json.ofText? (Outcome.printed value) = some value' := by
  rw [Json.ofText?, Outcome.printed, String.toList_append]
  exact Json.read?_eq_some_iff.mpr (h.isText_pretty.append_right areBlanks_lineEnd)

/-- A run that builds prints what it has built. -/
theorem run_of_built {result : BuildResult} (hread : CommandLine.ofWords words = .ok commandLine)
    (hcommand : commandLine.command = .autoBuild request)
    (h : Reaches world commandLine config store)
    (hbuilt : AutoBuild.run (workshop world config store) config.engineSettings request false =
      .ok result) :
    Prints (run world words) result ∧ Outcome.exitCode (run world words) = 0 := by
  obtain ⟨value, hrereads, hstates⟩ := AutoBuild.exists_rereads_of_run hbuilt
  rw [run_autoBuild hread hcommand h, hbuilt]
  exact ⟨⟨rfl, value, ofText?_printed hrereads, hstates⟩, rfl⟩

/-- A run that cannot build prints nothing and tells why. -/
theorem run_of_error {error : BuildError} (hread : CommandLine.ofWords words = .ok commandLine)
    (hcommand : commandLine.command = .autoBuild request)
    (h : Reaches world commandLine config store)
    (herror : AutoBuild.run (workshop world config store) config.engineSettings request false =
      .error error) :
    Outcome.output (run world words) = "" ∧
      Failure world config error (Outcome.exitCode (run world words)) := by
  rw [run_autoBuild hread hcommand h, herror]
  exact ⟨rfl, failure_of_run herror⟩

/-- The selection of a result, checked behind the same options in the same
    world, passes. -/
theorem exists_validate_of_built {result : BuildResult}
    (hread : CommandLine.ofWords words = .ok commandLine)
    (hcommand : commandLine.command = .autoBuild request)
    (h : Reaches world commandLine config store)
    (hbuilt : AutoBuild.run (workshop world config store) config.engineSettings request false =
      .ok result) :
    ∃ front rest, words = front ++ "auto-build" :: rest ∧
      CommandLine.ofWords (front ++ "validate" :: result.selection.words) =
        .ok { commandLine with command := .validate result.selection } ∧
      Outcome.exitCode (run world (front ++ "validate" :: result.selection.words)) = 0 := by
  obtain ⟨front, name, rest, hwords, hname, hfront⟩ := CommandLine.exists_front_of_ofWords hread
  rw [hcommand] at hname
  have hname := CommandLine.eq_of_readCommand_eq_autoBuild hname
  subst hname
  have hvalidate := hfront "validate" (by decide) _ _
    (Selection.readCommand_words result.selection)
  refine ⟨front, rest, hwords, hvalidate, ?_⟩
  -- the options in front name the same files
  have hreaches : Reaches world { commandLine with command := .validate result.selection }
      config store := ⟨h.settings, h.accepted, h.parts⟩
  have hcompatible : (result.selection.report store.get?).isCompatible = true :=
    AutoBuild.isCompatible_of_run hbuilt
  rw [run_validate hvalidate rfl hreaches, Outcome.ofReport, hcompatible]
  rfl

/-- **How a run ends.**  A run without usable settings or part records prints
    nothing and exits with one.  Otherwise a run that checks a selection prints
    its report, and exits with zero or one as the selection passes or not.  A run
    that builds exits with zero exactly if it prints a result; else it prints
    nothing, and its exit code tells whether files cannot be used, the request
    is refused or cannot be met, or the search broke down.  If it exits with
    zero, then the selection of its result, checked behind the same options in
    the same world, passes. -/
theorem run_exit_code (world : World Id)
    (haccepted : CommandLine.ofWords words = .ok commandLine) :
    let outcome : Outcome := run world words
    ((¬ ∃ config store, Reaches world commandLine config store) →
      outcome.output = "" ∧ outcome.exitCode = 1) ∧
    (∀ selection, commandLine.command = .validate selection → ∀ config store,
      Reaches world commandLine config store →
        outcome.output = (selection.report store.get?).toJson.pretty ++ "\n" ∧
        Json.decode? Report.ofJson? outcome.output = some (selection.report store.get?) ∧
        outcome.exitCode = if (selection.report store.get?).isCompatible then 0 else 1) ∧
    (∀ request, commandLine.command = .autoBuild request →
      (outcome.exitCode = 0 ↔ ∃ result, Prints outcome result) ∧
      (outcome.exitCode ≠ 0 → outcome.output = "" ∧
        ((¬ ∃ config store, Reaches world commandLine config store) ∧ outcome.exitCode = 1 ∨
          ∃ config store error, Reaches world commandLine config store ∧
            AutoBuild.run (workshop world config store) config.engineSettings request false =
              .error error ∧
            Failure world config error outcome.exitCode)) ∧
      (outcome.exitCode = 0 →
        ∃ config store result front rest, Reaches world commandLine config store ∧
          AutoBuild.run (workshop world config store) config.engineSettings request false =
            .ok result ∧
          Prints outcome result ∧ words = front ++ "auto-build" :: rest ∧
          CommandLine.ofWords (front ++ "validate" :: result.selection.words) =
            .ok { commandLine with command := .validate result.selection } ∧
          Outcome.exitCode (run world (front ++ "validate" :: result.selection.words)) = 0)) := by
  intro outcome
  refine ⟨run_of_not_reaches haccepted, ?_, ?_⟩
  · intro selection hcommand config store hreaches
    have houtcome : outcome = .ofReport (selection.report store.get?) :=
      run_validate haccepted hcommand hreaches
    rw [houtcome]
    exact ⟨rfl, Report.isRecordFormat.decode_write_append (by simp [Json.layouts]) _
      areBlanks_lineEnd, rfl⟩
  · intro request hcommand
    by_cases hreaches : ∃ config store, Reaches world commandLine config store
    · obtain ⟨config, store, hreaches⟩ := hreaches
      cases hbuilt : AutoBuild.run (workshop world config store) config.engineSettings request
          false with
      | ok result =>
          obtain ⟨hprints, hzero⟩ := run_of_built haccepted hcommand hreaches hbuilt
          obtain ⟨front, rest, hvalidate⟩ :=
            exists_validate_of_built haccepted hcommand hreaches hbuilt
          exact ⟨iff_of_true hzero ⟨result, hprints⟩, fun hne => absurd hzero hne,
            fun _ => ⟨config, store, result, front, rest, hreaches, hbuilt, hprints, hvalidate⟩⟩
      | error error =>
          obtain ⟨houtput, hfailure⟩ := run_of_error haccepted hcommand hreaches hbuilt
          exact ⟨iff_of_false hfailure.ne_zero (not_exists_prints houtput),
            fun _ => ⟨houtput, Or.inr ⟨config, store, error, hreaches, hbuilt, hfailure⟩⟩,
            fun hzero => absurd hzero hfailure.ne_zero⟩
    · obtain ⟨houtput, hone⟩ := run_of_not_reaches haccepted hreaches
      have hne : outcome.exitCode ≠ 0 := by
        rw [show outcome.exitCode = 1 from hone]
        decide
      exact ⟨iff_of_false hne (not_exists_prints houtput),
        fun _ => ⟨houtput, Or.inl ⟨hreaches, hone⟩⟩, fun hzero => absurd hzero hne⟩

end Program

/-! ## A world with one part of each kind -/

/-- A parts file whose text can be read holds its store. -/
theorem PartStore.ofFile_utf8 {text : String} {store : PartStore} (h : ofText? text = some store) :
    ofFile (.ok text.toUTF8.data.toList) = .ok store := by
  have hvalid : String.fromUTF8? ⟨text.toUTF8.data⟩ = some text := dif_pos text.isValidUTF8
  have hbytes : textOfBytes text.toUTF8.data.toList = .ok text := by
    rw [textOfBytes, Array.toArray_toList, hvalid]
  rw [ofFile, hbytes]
  simp only [bind, Except.bind, h]

namespace Program

/-- A parts file with the parts of a build. -/
def samplePartsText : List Char :=
  List.flatMap String.toList
    ["[\x7b\"id\": 1, \"category\": \"cpu\", ", "\"socket\": \"AM5\", \"tdp_watts\": 65, ",
     "\"perf_score\": 600\x7d, ", "\x7b\"id\": 1, \"category\": \"motherboard\", ",
     "\"socket\": \"AM5\", \"ram_type\": \"DDR5\", ", "\"ram_max_freq\": 5200, \"m2_slots\": 2, ",
     "\"pcie_slots\": 2, \"form_factor\": \"ATX\"\x7d, ", "\x7b\"id\": 1, \"category\": \"ram\", ",
     "\"ram_type\": \"DDR5\", ", "\"freq_mhz\": 6000, \"perf_score\": 100\x7d, ",
     "\x7b\"id\": 1, \"category\": \"gpu\", ", "\"length_mm\": 300, \"slots\": 2, ",
     "\"tdp_watts\": 200, \"perf_score\": 1500\x7d, ", "\x7b\"id\": 1, \"category\": \"psu\", ",
     "\"wattage\": 750, \"form_factor\": \"ATX\"\x7d, ", "\x7b\"id\": 1, \"category\": \"case\", ",
     "\"gpu_max_length_mm\": 340, ", "\"cooler_max_height_mm\": 160, ",
     "\"psu_form_factor\": \"ATX\"\x7d]"]

/-- A catalog that sells them. -/
def sampleCatalogBytes : List UInt8 :=
  let bytes (text : String) : List UInt8 := text.toUTF8.data.toList
  bytes "product_id,price,component_tag\n" ++
    ["cpu", "motherboard", "ram", "gpu", "psu", "case"].flatMap fun key =>
      bytes "7,100,\"\x7b\"\"type\"\": \"\"" ++ bytes key ++ bytes "\"\", \"\"id\"\": 1\x7d\"\n"

/-- A world with these two files. -/
def sampleWorld : World Id where
  machine := .usual
  hostNames := .plainOnly
  isThere path := decide (path = "components.json" ∨ path = "shop.csv")
  fileNamed path :=
    if path = "components.json" then .ok (String.ofList samplePartsText).toUTF8.data.toList
    else if path = "shop.csv" then .ok sampleCatalogBytes
    else .error .notFound
  envValue? _ := none
  prices _ := .unavailable
  today := .first

/-- The words of a command line that builds for eight hundred in the sample. -/
def sampleWords : List String := ["--catalog=shop.csv", "auto-build", "--budget=800"]

/-- The entries of the parts file. -/
def sampleEntries : List PartStore.Entry :=
  ((Json.read? samplePartsText).bind (Json.list? PartStore.Entry.ofJson?)).getD []

/-- What these words say. -/
def sampleCommandLine : CommandLine where
  catalogPath := some "shop.csv"
  command := .autoBuild { budget := 800 }

/-- The settings of the sample, which has no settings file. -/
def sampleConfig : Config where
  files := { catalogPath := "shop.csv" }

theorem ofText?_samplePartsText :
    PartStore.ofText? (String.ofList samplePartsText) = some (.ofEntries sampleEntries) := by
  have hsome : ((Json.read? samplePartsText).bind
      (Json.list? PartStore.Entry.ofJson?)).isSome = true := by
    decide +kernel
  obtain ⟨entries, hentries⟩ := Option.isSome_iff_exists.mp hsome
  have hread : PartStore.entriesOfText? (String.ofList samplePartsText) = some entries := by
    rw [← hentries, PartStore.entriesOfText?, Json.ofText?, String.toList_ofList]
    rfl
  rw [PartStore.ofText?, hread, sampleEntries, hentries]
  rfl

theorem reaches_sample :
    Reaches sampleWorld sampleCommandLine sampleConfig (.ofEntries sampleEntries) where
  settings := ⟨{}, nofun, fun _ => rfl, rfl⟩
  accepted := by decide +kernel
  parts := PartStore.ofFile_utf8 ofText?_samplePartsText

/-- The parts of the sample make a build. -/
theorem exists_result_sample :
    ∃ result, AutoBuild.run (workshop sampleWorld sampleConfig (.ofEntries sampleEntries))
      sampleConfig.engineSettings { budget := 800 } false = .ok result := by
  have hlookup : (PartStore.ofEntries sampleEntries).get? = fun category id =>
      (sampleEntries.reverse.find? fun entry => entry.part.category = category ∧ entry.id = id).map
        PartStore.Entry.part :=
    funext fun category => funext fun id => PartStore.get?_ofEntries sampleEntries category id
  have hbuilt : (AutoBuild.run (workshop sampleWorld sampleConfig (.ofEntries sampleEntries))
      sampleConfig.engineSettings { budget := 800 } false).toOption.any (fun _ => true) = true := by
    rw [workshop, hlookup]
    decide +kernel
  obtain ⟨result, hresult, -⟩ := AutoBuild.exists_result_of_any hbuilt
  exact ⟨result, hresult⟩

/-- The run of the sample prints a result, whose selection passes. -/
theorem run_exit_code_sample :
    CommandLine.ofWords sampleWords = .ok sampleCommandLine ∧
    ∃ result front rest,
      Prints (run sampleWorld sampleWords) result ∧
      Outcome.exitCode (run sampleWorld sampleWords) = 0 ∧
      sampleWords = front ++ "auto-build" :: rest ∧
      Outcome.exitCode (run sampleWorld (front ++ "validate" :: result.selection.words)) = 0 := by
  have haccepted : CommandLine.ofWords sampleWords = .ok sampleCommandLine := by
    decide +kernel
  obtain ⟨built, hbuilt⟩ := exists_result_sample
  have hzero := (run_of_built haccepted rfl reaches_sample hbuilt).2
  obtain ⟨-, -, hbuilds⟩ := run_exit_code sampleWorld haccepted
  obtain ⟨-, -, hagrees⟩ := hbuilds _ rfl
  obtain ⟨_, _, result, front, rest, -, -, hprints, hwords, -, hpasses⟩ := hagrees hzero
  exact ⟨haccepted, result, front, rest, hprints, hzero, hwords, hpasses⟩

end Program

end PcAssembly
