import Componentry.Json.Document
import Componentry.SettingPath

/-!
# Componentry.Settings

Settings of an application. The settings file assigns values to settings, and then the environment
does; the last assignment to a setting counts, and it has a default where both are silent. What a
setting is has to read as true or false; what is assigned to anything else does not matter, as long
as the file is JSON.
-/

namespace Componentry

structure Settings where
  installLogger : Bool := true
  /-- Whether a definition may take the place of another one with its name. -/
  allowOverriding : Bool := false
  logReport : Bool := false
deriving DecidableEq, Repr

inductive SettingsError where
  | malformedFile
  /-- The value of a setting reads neither as true nor as false. -/
  | notBoolean (setting : String)
deriving DecidableEq, Repr

/-- A text in lower case. Of all characters beyond ASCII, only the Kelvin sign has a lower case in
it. -/
def lowerCase (s : String) : String := s.map fun c => if c = '\u212a' then 'k' else c.toLower

/-- What a word reads as, in any mixture of cases. -/
def readWord? (word : String) : Option Bool :=
  if ["1", "true", "on", "yes"].contains (lowerCase word) then some true
  else if ["0", "false", "off", "no"].contains (lowerCase word) then some false
  else none

/-- What a value reads as. Numbers other than zero are true. -/
def Json.Value.readFlag? : Json.Value → Option Bool
  | bool b => some b
  | number n => some !n.isZero
  | string s => readWord? s
  | _ => none

/-- A value that is assigned to a setting or to a place inside it. -/
structure Assignment where
  path : SettingPath
  value : Json.Value
deriving Repr

/-- What the assignment makes of its setting. -/
def Assignment.result (a : Assignment) : Json.Value := a.path.steps.foldr Step.enclose a.value

/-- What the names of the variables that hold settings begin with, ahead of an underscore. -/
def variablePrefix : String := "CONWIRE"

structure Surroundings where
  file? : Option String := none
  /-- The variables of the environment, by name; of several with one name, the last one counts. -/
  environment : List (String × String) := []
deriving DecidableEq, Repr

namespace Surroundings

/-- The value of the settings file. A file that does not exist has no fields. -/
def readFile (s : Surroundings) : Except SettingsError Json.Value :=
  match s.file? with
  | none => .ok (.object [])
  | some text =>
    match Json.parse? text with
    | some v => .ok v
    | none => .error .malformedFile

/-- The key that a variable assigns to. Its name is the common prefix, followed by an underscore and
the key, in any mixture of cases. -/
def key? (name : String) : Option String :=
  ((lowerCase variablePrefix ++ "_").toList.isPrefixOf? (lowerCase name).toList).map String.ofList

def assignments (s : Surroundings) (file : Json.Value) : List Assignment :=
  (file.fields.map fun (key, v) => ⟨.ofKey key, v⟩) ++
    s.environment.filterMap fun (name, word) =>
      (key? name).map fun key => ⟨.ofKey key, .string word⟩

/-- What a setting is in the end: what the last assignment to it or inside it makes of it. A setting
that is null counts as absent. -/
def value? (s : Surroundings) (file : Json.Value) (setting : String) : Option Json.Value :=
  match (s.assignments file).reverse.find? (·.path.setting == setting) with
  | none => none
  | some a =>
    match a.result with
    | .null => none
    | v => some v

def readSetting (s : Surroundings) (file : Json.Value) (setting : String) (default : Bool) :
    Except SettingsError Bool :=
  match s.value? file setting with
  | none => .ok default
  | some v =>
    match v.readFlag? with
    | some flag => .ok flag
    | none => .error (.notBoolean setting)

/-- Loads all settings. One that cannot be read is an error, even if the others can. -/
def settings (s : Surroundings) : Except SettingsError Settings := do
  let defaults : Settings := {}
  let file ← s.readFile
  return {
    installLogger := ← s.readSetting file "install_tracing_logger" defaults.installLogger
    allowOverriding := ← s.readSetting file "allow_definition_overriding" defaults.allowOverriding
    logReport := ← s.readSetting file "log_condition_report" defaults.logReport }

end Surroundings

end Componentry
