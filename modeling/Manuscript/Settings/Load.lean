import Manuscript.Number.Shortest
import Manuscript.Project.FileSystem
import Manuscript.Settings.Basic
import Manuscript.Toml.Document

/-! Loading of settings: variables of the environment come before the project file, and that before the standard
settings. Values are read leniently, so a number may stand for a text and the other way round. -/

namespace Manuscript

inductive SettingsError where
  /-- The project file is missing or malformed. -/
  | unreadable
  /-- A value cannot be read as what its setting needs. -/
  | mistyped
  | invalid (problem : SettingsProblem)
deriving DecidableEq, Repr

def SettingsError.message : SettingsError → String
  | unreadable => "failed to read config file"
  | mistyped => "failed to unmarshal config"
  | invalid problem => "invalid config: " ++ problem.message

/-- How a setting is read from a value. `blank` is the setting when a variable hides its value. -/
structure Reading (α : Type) where
  blank : α
  decode : Toml → Option α

namespace Reading

def textOf : Toml → Option String
  | .text value => some value
  | .integer value => some (toString value)
  | .float bits => some (Shortest.text .double bits)
  | .boolean value => some (if value then "1" else "0")
  | _ => none

def text : Reading String := ⟨"", textOf⟩

/-- The whole part of a float, or the least integer when it has none in range. -/
def truncate (bits : Nat) : Int :=
  match BinaryFormat.double.value bits with
  | .finite negative mantissa exponent =>
    let whole := if 0 ≤ exponent then mantissa * twoTo exponent.toNat else mantissa / twoTo (-exponent).toNat
    (Numeral.signed? negative whole).getD (-Numeral.signedLimit)
  | _ => -Numeral.signedLimit

def integer : Reading Int where
  blank := 0
  decode
    | .integer value => some value
    | .float bits => some (truncate bits)
    | .boolean value => some (if value then 1 else 0)
    | .text value => if value = "" then some 0 else Numeral.basedInt? value
    | _ => none

/-- A text lists its parts with commas between them; any other single value is a list of one. -/
def list : Reading (List String) where
  blank := []
  decode
    | .text value => some (if value = "" then [] else value.splitOn ",")
    | .array items => items.mapM textOf
    | .table [] => some []
    | value => (textOf value).map fun item => [item]

end Reading

/-- Where settings are looked up. -/
structure SettingsSources where
  fields : List (String × Toml) := []
  environment : List (String × String) := []

namespace SettingsSources

/-- The field of a name in any letter case; one that is not in lower case comes first. -/
def field? (name : String) (fields : List (String × Toml)) : Option Toml :=
  match fields.find? fun field => field.1 ≠ name && LowerCase.lowerText field.1 = name with
  | some (_, value) => some value
  | none => fields.lookup name

/-- A variable that is not empty. -/
def nonEmpty? (sources : SettingsSources) (name : String) : Option String :=
  (sources.environment.lookup name).filter (· ≠ "")

def groupVariable (group : String) : String := "SS_" ++ group.toUpper

def keyVariable (group key : String) : String := groupVariable group ++ "_" ++ key.toUpper

/-- Every variable that settings are looked up in. -/
def variableNames : List String :=
  [("project", ["name", "source", "output", "workers"]), ("html", ["layout", "styles", "scripts"]), ("log", ["level"])].flatMap
    fun (group, keys) => groupVariable group :: keys.map (keyVariable group)

/-- The value of a setting in the project file, under its full name or in the table of its group. -/
def fileValue? (sources : SettingsSources) (group key : String) : Option Toml :=
  match field? (group ++ "." ++ key) sources.fields with
  | some value => some value
  | none =>
    match field? group sources.fields with
    | some (.table fields) => field? key fields
    | _ => none

/-- One setting. A variable named for the whole group hides what the file and the standard settings say. -/
def setting? {α : Type} (sources : SettingsSources) (group key : String) (reading : Reading α) (standard : α) :
    Option α :=
  match sources.nonEmpty? (keyVariable group key) with
  | some value => reading.decode (.text value)
  | none =>
    if (sources.nonEmpty? (groupVariable group)).isSome then some reading.blank
    else match sources.fileValue? group key with
      | some value => reading.decode value
      | none => some standard

/-- What the file has in place of a group of settings. -/
inductive Group where
  | usable
  | blank
  | unusable

/-- A group is a table. A point in time in its place is a group without any settings, and anything else is none. -/
def group (sources : SettingsSources) (name : String) : Group :=
  match field? name sources.fields with
  | none => .usable
  | some (.table _) => .usable
  | some .moment => if (sources.nonEmpty? (groupVariable name)).isSome then .unusable else .blank
  | some _ => .unusable

/-- A setting of a group, as far as the group is usable. -/
def lookup? {α : Type} (sources : SettingsSources) (group key : String) (reading : Reading α) (standard : α) :
    Option α :=
  match sources.group group with
  | .usable => sources.setting? group key reading standard
  | .blank => some reading.blank
  | .unusable => none

/-- All settings, or nothing when one of them has a value of the wrong kind. -/
def settings? (sources : SettingsSources) (standard : Settings) : Option Settings := do
  pure {
    name := ← sources.lookup? "project" "name" .text standard.name
    source := ← sources.lookup? "project" "source" .text standard.source
    output := ← sources.lookup? "project" "output" .text standard.output
    workers := ← sources.lookup? "project" "workers" .integer standard.workers
    layout := ← sources.lookup? "html" "layout" .text standard.layout
    styles := ← sources.lookup? "html" "styles" .list standard.styles
    scripts := ← sources.lookup? "html" "scripts" .list standard.scripts
    level := ← sources.lookup? "log" "level" .text standard.level }

end SettingsSources

namespace Settings

/-- Where a project file is looked for, the first one that exists being taken. -/
def fileNames : List String :=
  ["json", "toml", "yaml", "yml", "properties", "props", "prop", "hcl", "tfvars", "dotenv", "env", "ini"].map
    ("/ss." ++ ·) ++ ["/ss"]

/-- The content of the project file. Only a file that is asked for by its path has to exist. -/
def fileContent (system : FileSystem) (path : String) : Except SettingsError Bytes :=
  if path = "" then .ok ((fileNames.findSome? fun name => system.files.lookup name).getD [])
  else match system.read path with
    | .ok content => .ok content
    | .error _ => .error .unreadable

/-- The settings in force, from a project file and the environment. -/
def load (system : FileSystem) (environment : List (String × String)) (processors : Nat) (path : String) :
    Except SettingsError Settings := do
  let content ← fileContent system path
  match Toml.parse content with
  | none => throw .unreadable
  | some fields =>
    match SettingsSources.settings? ⟨fields, environment⟩ (standard processors) with
    | none => throw .mistyped
    | some settings =>
      match settings.problem? with
      | some problem => throw (.invalid problem)
      | none => pure settings

end Settings
end Manuscript
