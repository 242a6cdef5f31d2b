import Manuscript.Settings.LogLevel

/-! The settings of a project and what makes them unusable. -/

namespace Manuscript

structure Settings where
  name : String
  source : String
  output : String
  /-- How many pages are built at a time. -/
  workers : Int
  /-- The file with the page template; empty for the default one. -/
  layout : String
  styles : List String
  scripts : List String
  level : String
deriving DecidableEq, Repr

/-- Why settings cannot be used. -/
inductive SettingsProblem where
  | noSource
  | noOutput
  | negativeWorkers (workers : Int)
  | badLevel (error : LogLevelError)
deriving DecidableEq, Repr

def SettingsProblem.message : SettingsProblem → String
  | noSource => "project source directory is required"
  | noOutput => "project output directory is required"
  | negativeWorkers workers => "invalid number of workers: " ++ toString workers
  | badLevel error => "invalid log level: " ++ error.message

namespace Settings

/-- What holds unless a project says otherwise; there is a worker for each processor. -/
def standard (processors : Nat) : Settings where
  name := ""
  source := "."
  output := "dist"
  workers := processors
  layout := ""
  styles := ["https://cdn.jsdelivr.net/npm/katex@0.16.11/dist/katex.min.css"]
  scripts := ["https://cdn.jsdelivr.net/npm/katex@0.16.11/dist/katex.min.js"]
  level := "info"

/-- The first problem of the settings, if they have one. -/
def problem? (settings : Settings) : Option SettingsProblem :=
  if settings.source = "" then some .noSource
  else if settings.output = "" then some .noOutput
  else if settings.workers < 0 then some (.negativeWorkers settings.workers)
  else match LogLevel.parse settings.level with
    | .ok _ => none
    | .error error => some (.badLevel error)

/-- The level in force; one that cannot be read counts as `info`. -/
def logLevel (settings : Settings) : LogLevel := (LogLevel.parse settings.level).toOption.getD .info

end Settings
end Manuscript
