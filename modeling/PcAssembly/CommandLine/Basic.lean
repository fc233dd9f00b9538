import PcAssembly.CommandLine.Options
import PcAssembly.Request
import PcAssembly.Selection

/-! # Command lines of the program

    The program has two commands: one checks a selection of parts, the other
    builds by budget.  Options before the command name say where settings,
    catalog and part records are. -/

namespace PcAssembly

/-- What the program is asked to do. -/
inductive Command where
  | validate (selection : Selection)
  | autoBuild (request : BuildRequest)
  deriving DecidableEq, Repr

/-- A command line that is understood. -/
structure CommandLine where
  configPath : String := "rig-builder.toml"
  catalogPath : Option String := none
  componentsPath : Option String := none
  verbose : Bool := false
  command : Command
  deriving DecidableEq, Repr

namespace CommandLine

open PcAssembly.Number

/-- The integer in the value of an option. -/
def integer? (value : String) : Option Int64 := int64OfText? value.toList

/-- The value is an integer. -/
def isInteger (value : String) : Bool := (integer? value).isSome

/-- The option that asks for help. -/
def helpRule : OptionRule := { long := "help", short := some 'h', arity := .help }

/-- The options before the command. -/
def generalRules : List OptionRule :=
  [{ long := "config", short := some 'c', arity := .single },
   { long := "catalog", arity := .single },
   { long := "components", arity := .single },
   { long := "verbose", short := some 'v', arity := .flag },
   helpRule]

/-- The options of the command that checks a selection: an id for every slot,
    and the ids of drives. -/
def validateRules : List OptionRule :=
  (["cpu", "motherboard", "ram", "gpu", "psu", "case", "cooler"].map fun slot =>
      { long := slot, arity := .single, accepts := isInteger })
    ++ [{ long := "storage", arity := .list, accepts := isInteger }, helpRule]

/-- The options of the command that builds by budget. -/
def autoBuildRules : List OptionRule :=
  [{ long := "budget", arity := .single, accepts := isInteger },
   { long := "priority", arity := .list },
   { long := "platform", arity := .single },
   helpRule]

/-- The names of the commands. -/
def commandNames : List String := ["validate", "auto-build", "help"]

/-- The options of a command that takes nothing else. -/
def readAll (rules : List OptionRule) (words : List String) : Except Fault Progress := do
  let (progress, _) ← readOptions rules [] {} words
  progress.settle

/-- The selection that the options name. -/
def selection (progress : Progress) : Selection :=
  let id (slot : String) := (progress.value? slot).bind integer?
  { cpu := id "cpu"
    motherboard := id "motherboard"
    ram := id "ram"
    gpu := id "gpu"
    psu := id "psu"
    chassis := id "case"
    cooler := id "cooler"
    storage := (progress.values "storage").filterMap integer? }

/-- The request that the options state, if there is a budget among them. -/
def request? (progress : Progress) : Option BuildRequest :=
  ((progress.value? "budget").bind integer?).map fun budget =>
    { budget
      priorities := progress.values "priority"
      platform := progress.value? "platform" }

/-- The command with this name, given the words behind it.  Help is given
    about the program, or about one command. -/
def readCommand (name : String) (words : List String) : Except Fault Command :=
  match name with
  | "validate" => (readAll validateRules words).map fun progress =>
      .validate (selection progress)
  | "auto-build" => do
      match request? (← readAll autoBuildRules words) with
      | some request => .ok (.autoBuild request)
      | none => .error .missingOption
  | _ =>
      match words with
      | [] => .error .help
      | [word] => .error (if commandNames.contains word then .help else .unknownCommand)
      | _ => .error .unknownCommand

/-- The command line in a list of words.  What is wrong with the command comes
    before what is wrong with the last option in front of it. -/
def ofWords (words : List String) : Except Fault CommandLine := do
  match ← readOptions generalRules commandNames {} words with
  | (progress, some (name, rest)) =>
      let command ← readCommand name rest
      let general ← progress.settle
      let defaults : CommandLine := { command }
      return { defaults with
        configPath := (general.value? "config").getD defaults.configPath
        catalogPath := general.value? "catalog"
        componentsPath := general.value? "components"
        verbose := general.has "verbose" }
  | (progress, none) =>
      let general ← progress.settle
      .error (if general.given.isEmpty then .helpInstead else .missingCommand)

end CommandLine

end PcAssembly
