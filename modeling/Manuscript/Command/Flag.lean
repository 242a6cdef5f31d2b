import Manuscript.Text.EditDistance
import Manuscript.Text.LowerCase
import Manuscript.Text.Numeral
import Manuscript.Text.Quoted
import Manuscript.Text.Utf8

/-! The commands of the program, the flags they take, and the ways in which they can be misused. -/

namespace Manuscript

inductive CommandName where
  | build
  | watch
  | html
  | latex
  | dump
  | completion
  | help
deriving DecidableEq, Repr

inductive Flag where
  | config
  | verbose
  | help
  | raw
deriving DecidableEq, Repr

def programName : String := "ssc"

namespace CommandName

def all : List CommandName := [build, watch, html, latex, dump, completion, help]

def word : CommandName → String
  | build => "build"
  | watch => "watch"
  | html => "html"
  | latex => "latex"
  | dump => "dump"
  | completion => "completion"
  | help => "help"

def ofWord? (word : String) : Option CommandName := all.find? fun command => command.word = word

/-- Commands a misspelt word may have meant: those it begins, and those at most two letters away. -/
def suggestions (word : String) : List CommandName :=
  let typed := LowerCase.lowerText word
  all.filter fun command => command ≠ help &&
    (EditDistance.distance (Utf8.encode typed) (Utf8.encode command.word) ≤ 2 ||
      typed.toList.isPrefixOf command.word.toList)

end CommandName

namespace Flag

def name : Flag → String
  | config => "config"
  | verbose => "verbose"
  | help => "help"
  | raw => "raw"

def letter? : Flag → Option Char
  | verbose => some 'v'
  | help => some 'h'
  | _ => none

/-- Other flags are switched on by standing alone. -/
def takesValue (flag : Flag) : Bool := flag = config

/-- A flag as error messages show it. -/
def shown (flag : Flag) : String :=
  match flag.letter? with
  | some letter => "-" ++ letter.toString ++ ", --" ++ flag.name
  | none => "--" ++ flag.name

end Flag

/-- Flags that all commands share. -/
def sharedFlags : List Flag := [.config, .verbose]

/-- The flags of a command, or of the program when none is called. -/
def flagsOf : Option CommandName → List Flag
  | some .dump => sharedFlags ++ [.help, .raw]
  | _ => sharedFlags ++ [.help]

inductive UsageError where
  | unknownCommand (word : String) (suggestions : List CommandName)
  /-- An argument of a command that takes none. -/
  | unwantedArgument (word : String) (command : CommandName)
  | wrongCount (received : Nat)
  | malformedFlag (arg : String)
  | unknownFlag (name : String)
  | unknownLetter (letter : Char) (letters : String)
  | missingValue (flag : Flag)
  | notTruthValue (value : String) (flag : Flag)
deriving DecidableEq, Repr

namespace UsageError

/-- A letter in single quotes. All letters outside ASCII are shown alike. -/
def quoteLetter (letter : Char) : String :=
  let letter := if letter.toNat < 0x80 then letter else '\u00C3'
  let shown := if letter = '\'' then ['\\', '\''] else if letter = '"' then ['"'] else Quoted.escapeChar letter
  String.ofList ('\'' :: shown ++ ['\''])

def hint (suggestions : List CommandName) : String :=
  if suggestions.isEmpty then ""
  else "\n\nDid you mean this?\n" ++ String.join (suggestions.map fun command => "\t" ++ command.word ++ "\n")

def message : UsageError → String
  | unknownCommand word suggestions =>
    "unknown command " ++ Quoted.quote word ++ " for " ++ Quoted.quote programName ++ hint suggestions
  | unwantedArgument word command =>
    "unknown command " ++ Quoted.quote word ++ " for " ++ Quoted.quote (programName ++ " " ++ command.word)
  | wrongCount received => "accepts 1 arg(s), received " ++ toString received
  | malformedFlag arg => "bad flag syntax: " ++ arg
  | unknownFlag name => "unknown flag: --" ++ name
  | unknownLetter letter letters => "unknown shorthand flag: " ++ quoteLetter letter ++ " in -" ++ letters
  | missingValue flag => "flag needs an argument: --" ++ flag.name
  | notTruthValue value flag =>
    "invalid argument " ++ Quoted.quote value ++ " for " ++ Quoted.quote flag.shown ++
      " flag: strconv.ParseBool: parsing " ++ Quoted.quote value ++ ": invalid syntax"

end UsageError
end Manuscript
