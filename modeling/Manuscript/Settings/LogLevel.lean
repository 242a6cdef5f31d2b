import Manuscript.Text.LowerCase
import Manuscript.Text.Numeral

/-! How much a program logs. Levels are numbers, and those in common use have names. -/

namespace Manuscript

structure LogLevel where
  value : Int
deriving DecidableEq, Repr

inductive LogLevelError where
  | unknown (name : String)
  | outOfRange (value : Int)
deriving DecidableEq, Repr

namespace LogLevel

/-- Names of levels, the empty one for messages without a level. -/
def names : List (String × LogLevel) :=
  [("trace", ⟨-1⟩), ("debug", ⟨0⟩), ("info", ⟨1⟩), ("warn", ⟨2⟩), ("error", ⟨3⟩), ("fatal", ⟨4⟩), ("panic", ⟨5⟩),
    ("", ⟨6⟩), ("disabled", ⟨7⟩)]

def info : LogLevel := ⟨1⟩

/-- A level by its name, in any letter case, or by its number. -/
def parse (text : String) : Except LogLevelError LogLevel :=
  match names.find? fun entry => LowerCase.foldsTo entry.1 text with
  | some (_, level) => .ok level
  | none =>
    match Numeral.int? text with
    | none => .error (.unknown text)
    | some value => if -128 ≤ value && value ≤ 127 then .ok ⟨value⟩ else .error (.outOfRange value)

def name (level : LogLevel) : String :=
  match names.find? fun entry => entry.2 = level with
  | some (name, _) => name
  | none => toString level.value

end LogLevel

def LogLevelError.message : LogLevelError → String
  | unknown name => "Unknown Level String: '" ++ name ++ "', defaulting to NoLevel"
  | outOfRange value => "Out-Of-Bounds Level: '" ++ toString value ++ "', defaulting to NoLevel"

end Manuscript
