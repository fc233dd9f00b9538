import PcAssembly.Text.Blank

/-! # Options on a command line

    A command line is a list of words.  Options are written in full after two
    hyphens or as one letter after one hyphen, where letters may be joined;
    a value stands behind an equals sign, directly behind its letter, or in
    the next word.  The words are read from left to right, and an option whose
    value is a word of its own is looked at only when the next option, or the
    end, shows that it is complete: a word that nobody knows comes first. -/

namespace PcAssembly

namespace CommandLine

/-- Why a command line is not understood, or what it asks for instead. -/
inductive Fault where
  | unknownArgument
  | missingValue
  | unreadableValue
  | repeatedOption
  | unneededValue
  | missingOption
  | unknownCommand
  | missingCommand
  /-- Not a mistake: help is asked for. -/
  | help
  /-- Nothing is asked for at all, so help is given. -/
  | helpInstead
  deriving DecidableEq, Repr

/-- What may stand behind an option. -/
inductive Arity where
  /-- Nothing; the option asks for help. -/
  | help
  /-- Nothing. -/
  | flag
  /-- One value. -/
  | single
  /-- Values between commas; the option may be given again. -/
  | list
  deriving DecidableEq, Repr

/-- The option has a value. -/
def Arity.takesValue : Arity → Bool
  | .help | .flag => false
  | .single | .list => true

/-- An option that a command knows. -/
structure OptionRule where
  long : String
  short : Option Char := none
  arity : Arity
  /-- The values that can be read. -/
  accepts : String → Bool := fun _ => true

/-- The options read so far, by their long names, and the one that may still
    be waiting for its value. -/
structure Progress where
  given : List (String × List String) := []
  pending : Option (OptionRule × Option String) := none

namespace Progress

/-- The option has been given. -/
def has (progress : Progress) (long : String) : Bool :=
  progress.given.any fun option => option.1 == long

/-- All values of an option, in order. -/
def values (progress : Progress) (long : String) : List String :=
  (progress.given.filter fun option => option.1 == long).flatMap Prod.snd

/-- The value of an option that has one. -/
def value? (progress : Progress) (long : String) : Option String :=
  (progress.values long).head?

/-- The next word is the value of an option. -/
def awaitsValue (progress : Progress) : Bool :=
  match progress.pending with
  | some (_, none) => true
  | _ => false

/-- One more option with its values. -/
def give (progress : Progress) (rule : OptionRule) (values : List String) :
    Except Fault Progress :=
  if rule.arity = .help then .error .help
  else if rule.arity ≠ .list ∧ progress.has rule.long then .error .repeatedOption
  else if !values.all rule.accepts then .error .unreadableValue
  else .ok { progress with given := progress.given ++ [(rule.long, values)] }

/-- One more option with the text of its value. -/
def giveText (progress : Progress) (rule : OptionRule) (text : String) :
    Except Fault Progress :=
  progress.give rule (if rule.arity = .list then Text.splitString ',' text else [text])

/-- Takes the pending option among those that are given. -/
def settle (progress : Progress) : Except Fault Progress :=
  match progress.pending with
  | none => .ok progress
  | some (_, none) => .error .missingValue
  | some (rule, some text) => { progress with pending := none }.giveText rule text

/-- An option is met, with the value that is attached to it, if any. -/
def meet (progress : Progress) (rule : OptionRule) (attached : Option String) :
    Except Fault Progress := do
  let settled ← progress.settle
  if !rule.arity.takesValue then settled.give rule []
  else match attached with
    | some text => settled.giveText rule text
    | none => .ok { settled with pending := some (rule, none) }

/-- A word that starts with two hyphens. -/
def long (rules : List OptionRule) (progress : Progress) (body : List Char) :
    Except Fault Progress :=
  let name := body.takeWhile (· != '=')
  let attached := match body.dropWhile (· != '=') with
    | [] => none
    | _ :: value => some (String.ofList value)
  match rules.find? fun rule => rule.long.toList == name with
  | none => .error .unknownArgument
  | some rule =>
      if attached.isSome && !rule.arity.takesValue then .error .unneededValue
      else progress.meet rule attached

/-- The letters of a word that starts with one hyphen. -/
def letters (rules : List OptionRule) : Progress → List Char → Except Fault Progress
  | progress, [] => .ok progress
  | progress, c :: rest =>
      match rules.find? fun rule => rule.short == some c with
      | none => .error .unknownArgument
      | some rule =>
          if rule.arity.takesValue then
            progress.meet rule <| match rest with
              | [] => none
              | '=' :: value => some (String.ofList value)
              | value => some (String.ofList value)
          else do letters rules (← progress.meet rule none) rest

end Progress

/-- The fault of a word that stands where no word belongs: it should have been
    a command if there are commands. -/
def surplus (commands : List String) : Fault :=
  if commands.isEmpty then .unknownArgument else .unknownCommand

/-- Reads options up to the name of a command or the end; with the name come
    the words behind it.  After two lone hyphens no word is an option or a
    command. -/
def readOptions (rules : List OptionRule) (commands : List String) :
    Progress → List String → Except Fault (Progress × Option (String × List String))
  | progress, [] => .ok (progress, none)
  | progress, word :: rest =>
      if commands.contains word && !progress.awaitsValue then
        .ok (progress, some (word, rest))
      else match word.toList with
        | ['-', '-'] =>
            match rest with
            | [] => .ok (progress, none)
            | word :: _ =>
                .error (if commands.contains word then .unknownArgument else surplus commands)
        | '-' :: '-' :: body => do
            readOptions rules commands (← progress.long rules body) rest
        | '-' :: c :: body => do
            readOptions rules commands (← progress.letters rules (c :: body)) rest
        | _ =>
            match progress.pending with
            | some (rule, none) =>
                readOptions rules commands { progress with pending := some (rule, some word) } rest
            | _ => .error (surplus commands)

end CommandLine

end PcAssembly
