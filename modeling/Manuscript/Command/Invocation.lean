import Manuscript.Command.Flag

/-! Command lines: which command is called, what its flags say and what it is called on. Flags may stand before,
between and behind the other arguments, up to an argument `--`. -/

namespace Manuscript

/-- What flags say; the last one of a kind counts. -/
structure Options where
  config : String := ""
  verbose : Bool := false
  help : Bool := false
  raw : Bool := false
deriving DecidableEq, Repr

namespace Options

def set (options : Options) (flag : Flag) (value : String) : Except UsageError Options :=
  match flag with
  | .config => .ok { options with config := value }
  | .verbose => do pure { options with verbose := ← truth }
  | .help => do pure { options with help := ← truth }
  | .raw => do pure { options with raw := ← truth }
where
  truth : Except UsageError Bool :=
    match Numeral.bool? value with
    | some value => .ok value
    | none => .error (.notTruthValue value flag)

/-- Letters that belong to a test runner which the program may be started by. -/
def isForTestRunner (letters : List Char) : Bool := ['t', 'e', 's', 't', '.'].isPrefixOf letters

/-- Reads flags given by a run of letters. A value behind the last one follows an equals sign, and what belongs to
a test runner is passed by. -/
def readLetters (flags : List Flag) : Options → List Char → Except UsageError Options
  | options, [] => .ok options
  | options, letter :: rest =>
    if isForTestRunner (letter :: rest) then .ok options
    else match flags.find? (·.letter? = some letter) with
    | none => .error (.unknownLetter letter (String.ofList (letter :: rest)))
    | some flag =>
      match rest with
      | '=' :: c :: value => options.set flag (String.ofList (c :: value))
      | _ => do readLetters flags (← options.set flag "true") rest

/-- What the name of a flag, as it is written behind two dashes, comes to. -/
inductive Named where
  /-- The value is the next argument. -/
  | pending (flag : Flag)
  | done (options : Options)

def readName (flags : List Flag) (options : Options) (chars : List Char) : Except UsageError Named := do
  let name := String.ofList (chars.takeWhile (· ≠ '='))
  if name = "" || chars.head? = some '-' then throw (.malformedFlag ("--" ++ String.ofList chars))
  match flags.find? (·.name = name) with
  | none => throw (.unknownFlag name)
  | some flag =>
    match chars.dropWhile (· ≠ '=') with
    | _ :: value => pure (.done (← options.set flag (String.ofList value)))
    | [] => if flag.takesValue then pure (.pending flag) else pure (.done (← options.set flag "true"))

/-- Separates flags from the other arguments; `pending` is a flag that waits for its value. -/
def read (flags : List Flag) : Options → (pending : Option Flag) → List String →
    Except UsageError (Options × List String)
  | options, none, [] => .ok (options, [])
  | _, some flag, [] => .error (.missingValue flag)
  | options, some flag, value :: rest => do read flags (← options.set flag value) none rest
  | options, none, arg :: rest =>
    match arg.toList with
    | ['-', '-'] => .ok (options, rest)
    | '-' :: '-' :: chars => do
      match ← readName flags options chars with
      | .pending flag => read flags options (some flag) rest
      | .done options => read flags options none rest
    | '-' :: letter :: letters => do read flags (← readLetters flags options (letter :: letters)) none rest
    | _ => do
      let (options, args) ← read flags options none rest
      pure (options, arg :: args)

end Options

/-- What a command is to do, and on which file. -/
inductive Task where
  | build
  | watch
  | html (path : String)
  | latex (path : String)
  | dump (raw : Bool) (path : String)
deriving DecidableEq, Repr

/-- A complete command line. Without a command it asks for help. -/
inductive Invocation where
  | help
  | task (options : Options) (task : Task)
deriving DecidableEq, Repr

namespace Invocation

/-- Whether the argument behind a flag is taken for its value before it is known which command is called. Only the
shared flags are known then, and any other is expected to have one. -/
def expectsValue (arg : String) : Bool :=
  match arg.toList with
  | '-' :: '-' :: name =>
    !name.contains '=' && !sharedFlags.any fun flag => flag.name = String.ofList name && !flag.takesValue
  | ['-', letter] => letter ≠ '=' && letter.toNat < 0x80 && !sharedFlags.any fun flag => flag.letter? = some letter
  | _ => false

/-- The first word that is neither a flag nor the value of one, and the arguments around it. -/
def firstWord : (skip : Bool) → List String → Option (String × List String)
  | _, [] => none
  | true, arg :: rest => (firstWord false rest).map fun (word, others) => (word, arg :: others)
  | false, arg :: rest =>
    if arg = "--" then none
    else if arg ≠ "" && arg.toList.head? ≠ some '-' then some (arg, rest)
    else (firstWord (expectsValue arg) rest).map fun (word, others) => (word, arg :: others)

/-- The command that is called, if any, and its flags and arguments. -/
def commandOf (args : List String) : Except UsageError (Option CommandName × List String) :=
  match firstWord false args with
  | none => .ok (none, args)
  | some (word, others) =>
    match CommandName.ofWord? word with
    | some command => .ok (some command, others)
    | none => .error (.unknownCommand word (CommandName.suggestions word))

def noArgs (command : CommandName) (args : List String) : Except UsageError Unit :=
  match args with
  | [] => pure ()
  | arg :: _ => throw (.unwantedArgument arg command)

def oneArg (args : List String) : Except UsageError String :=
  match args with
  | [arg] => pure arg
  | _ => throw (.wrongCount args.length)

/-- Commands on the project take no arguments, commands on a file take its path. -/
def ofCommand (command : CommandName) (options : Options) (args : List String) : Except UsageError Invocation :=
  match command with
  | .build => do
    noArgs command args
    pure (task options .build)
  | .watch => do
    noArgs command args
    pure (task options .watch)
  | .html => do pure (task options (.html (← oneArg args)))
  | .latex => do pure (task options (.latex (← oneArg args)))
  | .dump => do pure (task options (.dump options.raw (← oneArg args)))
  | .completion | .help => pure help

def parse (args : List String) : Except UsageError Invocation := do
  let (command, args) ← commandOf args
  let (options, args) ← Options.read (flagsOf command) {} none args
  match command with
  | none => pure help
  | some command => if options.help then pure help else ofCommand command options args

end Invocation
end Manuscript
