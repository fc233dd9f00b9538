import PcAssembly.CommandLine.Basic
import PcAssembly.Config.File
import PcAssembly.Json.Printer
import PcAssembly.Report

/-! # The program

    A run reads its settings, the part records and, to build, the catalog,
    and ends with the first of these that cannot be used.  Otherwise it
    prints a report or a result.  What a run needs from outside is a world:
    the machine, the tables of host names, files, variables of the
    environment, price services and the day. -/

namespace PcAssembly

/-- What a run of the program meets. -/
structure World (m : Type → Type) where
  machine : Machine
  hostNames : HostNames
  /-- There is a file or a directory at a path, as far as can be seen. -/
  isThere : String → m Bool
  fileNamed : String → m (Except FileFault (List UInt8))
  envValue? : String → m (Option String)
  /-- The price service at an address. -/
  prices : String → PriceService
  today : Date

/-- What a run of the program leaves behind. -/
structure Outcome where
  exitCode : UInt8
  output : String := ""
  /-- Lines for the person who runs it. -/
  messages : List String := []
  deriving DecidableEq, Repr

/-- How a run ends that failed with an error of this severity. -/
def ErrorSeverity.exitCode : ErrorSeverity → UInt8
  | .low => 0
  | .medium => 2
  | .high => 1
  | .critical => 3

namespace Outcome

/-- How the program is called. -/
def usage : String :=
  "Usage: rig-builder [OPTIONS] <COMMAND>\n\n" ++
  "Commands:\n" ++
  "  validate    Check a selection of component ids for compatibility\n" ++
  "  auto-build  Search the catalog for the best build within a budget\n" ++
  "  help        Print this message\n"

/-- The fault of a command line in words. -/
def faultText : CommandLine.Fault → String
  | .unknownArgument => "unexpected argument"
  | .missingValue => "a value is missing"
  | .unreadableValue => "a value is not an integer"
  | .repeatedOption => "an option cannot be used multiple times"
  | .unneededValue => "a value stands behind an option that takes none"
  | .missingOption => "a required option is missing"
  | .unknownCommand => "unrecognized subcommand"
  | .missingCommand => "a subcommand is missing"
  | .help | .helpInstead => "help"

/-- The end of a run whose command line is not understood. -/
def ofFault : CommandLine.Fault → Outcome
  | .help => { exitCode := 0, output := usage }
  | .helpInstead => { exitCode := 2, messages := [usage] }
  | fault => { exitCode := 2, messages := ["error: " ++ faultText fault, usage] }

/-- The end of a run whose settings cannot be read. -/
def unreadableConfig (path : String) (error : BuildError) : Outcome where
  exitCode := 1
  messages :=
    [s!"❌ Failed to load config file '{path}': {error.message}",
     "💡 Make sure the file exists and is valid TOML format"]

/-- The end of a run with a setting that is refused. -/
def refusedConfig (error : BuildError) : Outcome where
  exitCode := 1
  messages := [s!"❌ {error.friendlyMessage}"]

/-- The end of a run without part records. -/
def unreadableParts (error : BuildError) : Outcome where
  exitCode := 1
  messages := [s!"Error: {error.message}"]

/-- The text of a value as the program prints it. -/
def printed (value : Json) : String := value.pretty ++ "\n"

/-- The end of a run that reports on a selection. -/
def ofReport (report : Report) : Outcome where
  exitCode := if report.isCompatible then 0 else 1
  output := printed report.toJson

/-- The end of a run that builds. -/
def ofBuild : Except BuildError BuildResult → Outcome
  | .ok result => { exitCode := 0, output := printed result.toJson }
  | .error error =>
      { exitCode := error.severity.exitCode
        messages := [s!"❌ {error.friendlyMessage}", s!"💡 {error.suggestion}"] }

end Outcome

/-- The text of a file that has been read. -/
def textOfBytes (bytes : List UInt8) : Except BuildError String :=
  match String.fromUTF8? ⟨bytes.toArray⟩ with
  | some text => .ok text
  | none => .error (.file .notText)

/-- The part records that a file holds. -/
def PartStore.ofFile (file : Except FileFault (List UInt8)) : Except BuildError PartStore :=
  match file with
  | .error fault => .error (.file fault)
  | .ok bytes => do
      match PartStore.ofText? (← textOfBytes bytes) with
      | some store => .ok store
      | none => .error (.serialization "malformed component records")

/-- The catalog that the file with this path holds. -/
def CatalogFile.ofFile (path : String) (file : Except FileFault (List UInt8)) :
    Except CatalogFault (List CatalogItem) :=
  match file with
  | .error fault => .error (.unreadableFile path fault)
  | .ok bytes => CatalogFile.read bytes

namespace Config

/-- The settings with the paths that a command line names instead. -/
def withPaths (config : Config) (commandLine : CommandLine) : Config :=
  { config with files := {
      catalogPath := commandLine.catalogPath.getD config.files.catalogPath
      componentsPath := commandLine.componentsPath.getD config.files.componentsPath } }

/-- The settings that the file with this path states. -/
def read {m : Type → Type} [Monad m] (world : World m) (path : String) :
    m (Except BuildError Config) := do
  match ← world.fileNamed path with
  | .error fault => return .error (.file fault)
  | .ok bytes =>
      match textOfBytes bytes with
      | .error error => return .error error
      | .ok text =>
          let held ← (Template.names text).mapM fun name => do
            return (name, ← world.envValue? name)
          return ofText (fun name => (held.lookup name).join) text

/-- The settings of a run: those of the file, or the defaults if nothing is
    there. -/
def load {m : Type → Type} [Monad m] (world : World m) (path : String) :
    m (Except BuildError Config) := do
  if ← world.isThere path then read world path
  else return .ok {}

/-- The price service under these settings. -/
def priceService {m : Type → Type} (world : World m) (config : Config) : PriceService :=
  match config.priceEndpoint? with
  | some endpoint => world.prices endpoint
  | none => .unavailable

end Config

namespace Program

/-- Carries out a command with known parts. -/
def execute {m : Type → Type} [Monad m] (world : World m) (config : Config)
    (store : PartStore) : Command → m Outcome
  | .validate selection => return .ofReport (selection.report store.get?)
  | .autoBuild request => do
      let path := config.files.catalogPath
      let workshop : Workshop := {
        machine := world.machine
        lookup := store.get?
        catalog := (CatalogFile.ofFile path (← world.fileNamed path)).mapError .catalog
        prices := config.priceService world
        today := world.today }
      return .ofBuild (AutoBuild.run workshop config.engineSettings request false)

/-- Runs the program on the words of a command line. -/
def run {m : Type → Type} [Monad m] (world : World m) (words : List String) : m Outcome := do
  match CommandLine.ofWords words with
  | .error fault => return .ofFault fault
  | .ok commandLine =>
      match ← Config.load world commandLine.configPath with
      | .error error => return .unreadableConfig commandLine.configPath error
      | .ok stated =>
          let config := stated.withPaths commandLine
          match config.fault? world.hostNames with
          | some error => return .refusedConfig error
          | none =>
              match PartStore.ofFile (← world.fileNamed config.files.componentsPath) with
              | .error error => return .unreadableParts error
              | .ok store => execute world config store commandLine.command

end Program

end PcAssembly
