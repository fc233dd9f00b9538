import PcAssembly.Build.Auto

/-! # Settings of the program

    Settings are grouped in four sections.  Every setting has a default, so
    that the empty configuration is a useful one. -/

namespace PcAssembly

namespace Config

/-- How wide and how long the search is. -/
structure Search where
  beamWidth : UInt64 := defaultBeamWidth
  buildTimeoutMs : UInt64 := 10000
  deriving DecidableEq, Repr

/-- Where price histories come from. -/
structure Prices where
  enabled : Bool := true
  endpoint : Option String := none
  timeoutMs : UInt64 := 2000
  windowDays : UInt32 := 30
  deriving DecidableEq, Repr

/-- Where the catalog and the part records are. -/
structure Files where
  catalogPath : String := "catalog.csv"
  componentsPath : String := "components.json"
  deriving DecidableEq, Repr

/-- What is logged. -/
structure Monitoring where
  logLevel : Option String := none
  jsonLogs : Option Bool := none
  deriving DecidableEq, Repr

end Config

/-- The settings of the program. -/
structure Config where
  search : Config.Search := {}
  prices : Config.Prices := {}
  files : Config.Files := {}
  monitoring : Option Config.Monitoring := none
  deriving DecidableEq, Repr

namespace Config

/-- The address of the price service, unless it is switched off. -/
def priceEndpoint? (config : Config) : Option String :=
  if config.prices.enabled then config.prices.endpoint else none

/-- The least severe level that is logged. -/
def logLevel (config : Config) : String :=
  (config.monitoring.bind Monitoring.logLevel).getD "info"

/-- The log is written as data values. -/
def jsonLogs (config : Config) : Bool :=
  (config.monitoring.bind Monitoring.jsonLogs).getD false

/-- How builds are made under these settings. -/
def engineSettings (config : Config) : EngineSettings :=
  { beamWidth := config.search.beamWidth
    buildTimeoutMs := config.search.buildTimeoutMs
    priceTimeoutMs := config.prices.timeoutMs
    priceWindowDays := config.prices.windowDays }

/-- The first rule that a setting breaks, as an error: a value, its setting
    and the reason. -/
def fault? (names : HostNames) (config : Config) : Option BuildError :=
  let rule (field value : String) (fault : Option ValueFault) : Option BuildError :=
    fault.map (.configValue field value)
  let atLeastOne (field : String) (n : Nat) :=
    rule field (toString n) (ValueFault.ofMinimum? 1 n)
  let file (field path extension : String) :=
    rule field path (ValueFault.ofPath? path)
      <|> rule field path (ValueFault.ofExtension? extension path)
  let days := config.prices.windowDays.toNat
  atLeastOne "search.beam_width" config.search.beamWidth.toNat
    <|> atLeastOne "search.build_timeout_ms" config.search.buildTimeoutMs.toNat
    <|> atLeastOne "price_history.timeout_ms" config.prices.timeoutMs.toNat
    <|> rule "price_history.window_days" (toString days) (ValueFault.ofRange? 1 365 days)
    <|> config.prices.endpoint.bind (fun endpoint =>
          rule "price_history.endpoint" endpoint (ValueFault.ofUrl? names endpoint))
    <|> file "catalog.catalog_path" config.files.catalogPath "csv"
    <|> file "catalog.components_path" config.files.componentsPath "json"

end Config

end PcAssembly
