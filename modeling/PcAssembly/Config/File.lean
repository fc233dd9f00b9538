import PcAssembly.Config.Basic
import PcAssembly.Config.Template
import PcAssembly.Toml.Fields

/-! # Configuration files

    A configuration file is a document in which placeholders have been
    replaced.  Of its tables four are read, setting by setting; one setting
    that cannot be read makes the file unreadable, and what the library does
    not know is passed over. -/

namespace PcAssembly.Config

/-- The names of the sections, in order. -/
def sectionNames : List String := ["search", "price_history", "catalog", "monitoring"]

namespace Search

/-- The settings of the section, in order. -/
def fieldNames : List String := ["beam_width", "build_timeout_ms"]

/-- The section in a document. -/
def ofToml? (value : Toml) : Option Search := do
  match ← value.section? fieldNames 0 with
  | [beamWidth, buildTimeoutMs] =>
      let defaults : Search := {}
      return {
        beamWidth := ← Toml.settingOr defaults.beamWidth Toml.uint64? beamWidth
        buildTimeoutMs := ← Toml.settingOr defaults.buildTimeoutMs Toml.uint64? buildTimeoutMs }
  | _ => none

/-- The section as a value. -/
def toJson (search : Search) : Json :=
  .record (fieldNames.zip
    [.int search.beamWidth.toNat, .int search.buildTimeoutMs.toNat])

end Search

namespace Prices

/-- The settings of the section, in order. -/
def fieldNames : List String := ["enabled", "endpoint", "timeout_ms", "window_days"]

/-- The section in a document.  Written as an array it has to reach the
    address. -/
def ofToml? (value : Toml) : Option Prices := do
  match ← value.section? fieldNames 2 with
  | [enabled, endpoint, timeoutMs, windowDays] =>
      let defaults : Prices := {}
      return {
        enabled := ← Toml.settingOr defaults.enabled Toml.bool? enabled
        endpoint := ← Toml.setting? Toml.string? endpoint
        timeoutMs := ← Toml.settingOr defaults.timeoutMs Toml.uint64? timeoutMs
        windowDays := ← Toml.settingOr defaults.windowDays Toml.uint32? windowDays }
  | _ => none

/-- The section as a value. -/
def toJson (prices : Prices) : Json :=
  .record (fieldNames.zip
    [.bool prices.enabled, .ofOption .text prices.endpoint, .int prices.timeoutMs.toNat,
     .ofUInt32 prices.windowDays])

end Prices

namespace Files

/-- The settings of the section, in order. -/
def fieldNames : List String := ["catalog_path", "components_path"]

/-- The section in a document. -/
def ofToml? (value : Toml) : Option Files := do
  match ← value.section? fieldNames 0 with
  | [catalogPath, componentsPath] =>
      let defaults : Files := {}
      return {
        catalogPath := ← Toml.settingOr defaults.catalogPath Toml.string? catalogPath
        componentsPath := ← Toml.settingOr defaults.componentsPath Toml.string? componentsPath }
  | _ => none

/-- The section as a value. -/
def toJson (files : Files) : Json :=
  .record (fieldNames.zip [.text files.catalogPath, .text files.componentsPath])

end Files

namespace Monitoring

/-- The settings of the section, in order. -/
def fieldNames : List String := ["log_level", "json_logs"]

/-- The section in a document.  Written as an array it has to be whole. -/
def ofToml? (value : Toml) : Option Monitoring := do
  match ← value.section? fieldNames 2 with
  | [logLevel, jsonLogs] =>
      return {
        logLevel := ← Toml.setting? Toml.string? logLevel
        jsonLogs := ← Toml.setting? Toml.bool? jsonLogs }
  | _ => none

/-- The section as a value. -/
def toJson (monitoring : Monitoring) : Json :=
  .record (fieldNames.zip
    [.ofOption .text monitoring.logLevel, .ofOption .bool monitoring.jsonLogs])

end Monitoring

/-- The settings in a document. -/
def ofToml? (document : Toml.Members) : Option Config := do
  match ← Toml.settings? sectionNames document with
  | [search, prices, files, monitoring] =>
      return {
        search := ← Toml.settingOr {} Search.ofToml? search
        prices := ← Toml.settingOr {} Prices.ofToml? prices
        files := ← Toml.settingOr {} Files.ofToml? files
        monitoring := ← Toml.setting? Monitoring.ofToml? monitoring }
  | _ => none

/-- The settings as a value. -/
def toJson (config : Config) : Json :=
  .record (sectionNames.zip
    [config.search.toJson, config.prices.toJson, config.files.toJson,
     .ofOption Monitoring.toJson config.monitoring])

/-- The error of a file that cannot be read as settings. -/
def unreadable : BuildError :=
  .configFile "toml_parsing" "TOML parsing error"

/-- The settings that a file states, given what the variables of the
    environment hold. -/
def ofText (envValue? : String → Option String) (text : String) : Except BuildError Config :=
  match (Toml.read? (Template.substitute envValue? text).toList).bind ofToml? with
  | some config => .ok config
  | none => .error unreadable

end PcAssembly.Config
