import CommitStore.Command.Listing
import CommitStore.State.CommitState

/-!
# Command lines

A command line is a list of arguments.  It names a command, in one or two words, and gives its
positional arguments and options.  Each word that names a command opens a level; the options for
configuration, format and verbosity may be given at any level, and the innermost one counts.

A value that stands in an argument of its own is looked at only when the next argument, or the end
of its level, makes clear that it is complete, and a level is checked only after the levels below
it.  This decides which of several faults is reported, so `Invocation.parse`, which makes an
`Invocation` or a `UsageError` of the arguments, reads them in that order.
-/

namespace CommitStore

/-- Where the content of a new object comes from. -/
inductive PutSource
  | standardInput
  | file (path : String)
  | data (text : String)
  deriving DecidableEq

/-- What is to be done. -/
inductive Action
  | put (path : String) (source : PutSource)
  | get (path : String)
  | head (path : String)
  | list (start : String)
  | delete (path : String)
  | move (source target : String) (ifFree : Bool)
  | stateGet
  | statePut (version : Int64)
  deriving DecidableEq

/-- What a command line asks for. -/
structure Invocation where
  action : Action
  /-- The path of the configuration file. -/
  config : Option String
  /-- The root directory that takes the place of the configured store. -/
  root : Option String
  /-- The path of the state file that takes the place of the configured one. -/
  state : Option String
  verbose : Bool
  format : OutputFormat
  deriving DecidableEq

/-- What can be wrong with a command line; asking for help or for the version ends it as well. -/
inductive UsageError
  | unknownArgument
  | invalidSubcommand
  | missingSubcommand
  /-- A level with commands below it was left without any argument. -/
  | nothingGiven
  | missingArgument
  | argumentConflict
  | invalidValue
  | tooManyValues
  /-- A value is not of the kind that its argument asks for. -/
  | malformedValue
  | helpRequested
  | versionRequested
  deriving DecidableEq

/-- The exit status of the program. -/
def UsageError.exitStatus : UsageError → Nat
  | .helpRequested => 0
  | .versionRequested => 0
  | _ => 2

/-! ## The grammar -/

/-- The commands. -/
inductive Verb
  | put
  | get
  | head
  | list
  | delete
  | move
  | stateGet
  | statePut
  deriving DecidableEq

/-- The levels of a command line. -/
inductive Level
  | top
  | state
  | verb (verb : Verb)
  deriving DecidableEq

/-- The options with a value. -/
inductive Setting
  | config
  | root
  | state
  | format
  | file
  | data
  deriving DecidableEq

/-- The options without a value. -/
inductive Switch
  | verbose
  | ifNotExists
  | help
  | version
  deriving DecidableEq

/-- The options. -/
inductive Flag
  | setting (setting : Setting)
  | switch (switch : Switch)
  deriving DecidableEq

/-- What a word opens at a level. -/
inductive Opening
  | level (level : Level)
  | help
  deriving DecidableEq

namespace Level

/-- What a word opens at a level, if anything. -/
def opens? : Level → String → Option Opening
  | .top, word =>
    if word = "put" then some (.level (.verb .put))
    else if word = "get" then some (.level (.verb .get))
    else if word = "head" then some (.level (.verb .head))
    else if word = "ls" then some (.level (.verb .list))
    else if word = "rm" then some (.level (.verb .delete))
    else if word = "mv" then some (.level (.verb .move))
    else if word = "state" then some (.level .state)
    else if word = "help" then some .help
    else none
  | .state, word =>
    if word = "get" then some (.level (.verb .stateGet))
    else if word = "put" then some (.level (.verb .statePut))
    else if word = "help" then some .help
    else none
  | .verb _, _ => none

/-- Whether a level has levels below it. -/
def hasLevels : Level → Bool
  | .top => true
  | .state => true
  | .verb _ => false

/-- The option with a long name. -/
def longFlag? (level : Level) (name : String) : Option Flag :=
  if name = "config" then some (.setting .config)
  else if name = "root" then some (.setting .root)
  else if name = "state" then some (.setting .state)
  else if name = "format" then some (.setting .format)
  else if name = "verbose" then some (.switch .verbose)
  else if name = "help" then some (.switch .help)
  else if name = "version" ∧ level = .top then some (.switch .version)
  else if name = "file" ∧ level = .verb .put then some (.setting .file)
  else if name = "data" ∧ level = .verb .put then some (.setting .data)
  else if name = "if-not-exists" ∧ level = .verb .move then some (.switch .ifNotExists)
  else none

/-- The option with a letter. -/
def shortFlag? (level : Level) (letter : Char) : Option Flag :=
  if letter = 'c' then some (.setting .config)
  else if letter = 'v' then some (.switch .verbose)
  else if letter = 'h' then some (.switch .help)
  else if letter = 'V' ∧ level = .top then some (.switch .version)
  else if letter = 'f' ∧ level = .verb .put then some (.setting .file)
  else if letter = 'd' ∧ level = .verb .put then some (.setting .data)
  else none

/-- The number of positional arguments. -/
def arity : Level → Nat
  | .verb .move => 2
  | .verb .stateGet => 0
  | .verb _ => 1
  | _ => 0

/-- The number of positional arguments that must be given. -/
def required : Level → Nat
  | .verb .list => 0
  | level => level.arity

end Level

/-! ## What is given at a level -/

/-- What is given at one level, as far as it has been checked. -/
structure Given where
  config : Option String := none
  root : Option String := none
  state : Option String := none
  format : Option String := none
  file : Option String := none
  data : Option String := none
  verbose : Bool := false
  ifNotExists : Bool := false
  positionals : List String := []
  deriving DecidableEq

namespace Given

/-- Whether nothing is given. -/
def isNothing (g : Given) : Bool := g = {}

/-- The value of an option. -/
def value? (g : Given) : Setting → Option String
  | .config => g.config
  | .root => g.root
  | .state => g.state
  | .format => g.format
  | .file => g.file
  | .data => g.data

/-- Give an option a value. -/
def assign (g : Given) (value : String) : Setting → Given
  | .config => { g with config := some value }
  | .root => { g with root := some value }
  | .state => { g with state := some value }
  | .format => { g with format := some value }
  | .file => { g with file := some value }
  | .data => { g with data := some value }

end Given

/-- Whether an option takes a value: a path must not be empty, and a format must be known. -/
def Setting.takes (setting : Setting) (value : String) : Bool :=
  match setting with
  | .data => true
  | .format => (OutputFormat.ofName? value).isSome
  | _ => value != ""

/-- The version that an argument denotes: decimal digits with an optional sign, within 64 bits. -/
def versionOfText? (text : String) : Option Int64 :=
  let (negative, digits) :=
    match text.toList with
    | '-' :: rest => (true, rest)
    | '+' :: rest => (false, rest)
    | rest => (false, rest)
  if digits = [] ∨ ¬digits.all Char.isDigit then none
  else
    let magnitude := Text.ofDecimal digits
    let n : Int := if negative then -magnitude else magnitude
    if Int64.minValue.toInt ≤ n ∧ n ≤ Int64.maxValue.toInt then some (.ofInt n) else none

/-- What is complete but not yet checked. -/
inductive Pending
  /-- An option, with the value in the argument after it. -/
  | setting (setting : Setting) (value : Option String)
  | positional (value : String)
  deriving DecidableEq

/-- How far the arguments of a level have been read. -/
structure Progress where
  given : Given := {}
  pending : Option Pending := none
  deriving DecidableEq

namespace Progress

/-- Check the value of an option and take it. -/
def store (p : Progress) (setting : Setting) (value : String) : Except UsageError Progress :=
  if (p.given.value? setting).isSome then .error .argumentConflict
  else if setting.takes value then .ok { p with given := p.given.assign value setting }
  else .error .invalidValue

/-- Check what is pending. -/
def settle (level : Level) (p : Progress) : Except UsageError Progress :=
  let checked : Progress := { p with pending := none }
  match p.pending with
  | none => .ok checked
  | some (.setting _ none) => .error .invalidValue
  | some (.setting setting (some value)) => checked.store setting value
  | some (.positional value) =>
    if level = .verb .statePut ∧ (versionOfText? value).isNone then .error .malformedValue
    else
      .ok { checked with
        given := { p.given with positionals := p.given.positionals ++ [value] } }

/-- Take an option without a value. -/
def raise (p : Progress) : Switch → Except UsageError Progress
  | .help => .error .helpRequested
  | .version => .error .versionRequested
  | .verbose =>
    if p.given.verbose then .error .argumentConflict
    else .ok { p with given := { p.given with verbose := true } }
  | .ifNotExists =>
    if p.given.ifNotExists then .error .argumentConflict
    else .ok { p with given := { p.given with ifNotExists := true } }

/-- Whether an option waits for its value. -/
def awaitsValue (p : Progress) : Bool :=
  match p.pending with
  | some (.setting _ none) => true
  | _ => false

/-- The number of positional arguments so far. -/
def positionals (p : Progress) : Nat :=
  p.given.positionals.length +
    match p.pending with
    | some (.positional _) => 1
    | _ => 0

end Progress

/-! ## Reading one argument -/

namespace Level

/-- Read an option with a long name, and with a value behind an equals sign if there is one. -/
def readLong (level : Level) (p : Progress) (name : String) (value : Option String) :
    Except UsageError Progress :=
  match level.longFlag? name, value with
  | none, _ => .error .unknownArgument
  | some (.setting setting), some value => do (← p.settle level).store setting value
  | some (.setting setting), none => do
    return { ← p.settle level with pending := some (.setting setting none) }
  | some (.switch _), some _ => .error .tooManyValues
  | some (.switch switch), none => do (← p.settle level).raise switch

/-- Read letters behind a hyphen.  The letters behind that of an option with a value are its value;
an equals sign in front of them does not belong to it. -/
def readLetters (level : Level) (p : Progress) : List Char → Except UsageError Progress
  | [] => .ok p
  | letter :: rest =>
    match level.shortFlag? letter with
    | none => .error .unknownArgument
    | some (.switch switch) => do
      let p ← (← p.settle level).raise switch
      level.readLetters p rest
    | some (.setting setting) => do
      let p ← p.settle level
      match rest with
      | [] => return { p with pending := some (.setting setting none) }
      | '=' :: value => p.store setting (String.ofList value)
      | value => p.store setting (String.ofList value)

/-- Read an argument that is no option. -/
def readWord (level : Level) (p : Progress) (trailing : Bool) (word : String) :
    Except UsageError Progress :=
  match p.pending, trailing with
  | some (.setting setting none), false =>
    .ok { p with pending := some (.setting setting (some word)) }
  | _, _ =>
    if p.positionals < level.arity then do
      return { ← p.settle level with pending := some (.positional word) }
    else if level.hasLevels ∧ ¬(trailing ∧ (level.opens? word).isSome) then
      .error .invalidSubcommand
    else .error .unknownArgument

/-- Read an argument that neither opens a level nor ends the options. -/
def readArgument (level : Level) (p : Progress) (trailing : Bool) (arg : String) :
    Except UsageError Progress :=
  match trailing, arg.toList with
  | false, '-' :: '-' :: long =>
    let name := long.takeWhile (· ≠ '=')
    let value :=
      match long.drop name.length with
      | _ :: value => some (String.ofList value)
      | [] => none
    level.readLong p (String.ofList name) value
  | false, '-' :: letter :: letters => level.readLetters p (letter :: letters)
  | _, _ => level.readWord p trailing arg

/-! ## Levels -/

/-- Check a level at which no further level was opened. -/
def finish (level : Level) (p : Progress) : Except UsageError Given := do
  let given := (← p.settle level).given
  if level.hasLevels then
    throw (if given.isNothing then .nothingGiven else .missingSubcommand)
  else if given.file.isSome ∧ given.data.isSome then throw .argumentConflict
  else if given.positionals.length < level.required then throw .missingArgument
  else return given

/-- What asking for help on some words leads to. -/
def help : Level → List String → UsageError
  | _, [] => .helpRequested
  | level, word :: words =>
    match level.opens? word with
    | some (.level below) => help below words
    | some .help => if words = [] then .helpRequested else .invalidSubcommand
    | none => .invalidSubcommand

/-- Read the arguments of a level and of the levels below it.  `trailing` says that the options have
ended.  The answer names the levels and says what is given at each, from the outermost on. -/
def read (level : Level) (p : Progress) (trailing : Bool) :
    List String → Except UsageError (List (Level × Given))
  | [] => do return [(level, ← level.finish p)]
  | arg :: args =>
    match if trailing || p.awaitsValue then none else level.opens? arg with
    | some .help => .error (level.help args)
    | some (.level below) => do
      let levels ← below.read {} false args
      let p ← p.settle level
      return (level, p.given) :: levels
    | none =>
      if arg = "--" ∧ ¬trailing then level.read p true args
      else do
        let p ← level.readArgument p trailing arg
        level.read p trailing args

end Level

/-! ## Whole command lines -/

namespace Invocation

/-- The innermost value among those given at several levels. -/
def innermost {α : Type} (value? : Given → Option α) (levels : List (Level × Given)) : Option α :=
  levels.foldl (fun found level => (value? level.2).or found) none

/-- The action of a command with what is given at its level. -/
def actionOf (verb : Verb) (g : Given) : Except UsageError Action :=
  match verb, g.positionals with
  | .put, [path] =>
    .ok (.put path
      (match g.file, g.data with
      | some file, _ => .file file
      | none, some data => .data data
      | none, none => .standardInput))
  | .get, [path] => .ok (.get path)
  | .head, [path] => .ok (.head path)
  | .list, [] => .ok (.list "")
  | .list, [start] => .ok (.list start)
  | .delete, [path] => .ok (.delete path)
  | .move, [source, target] => .ok (.move source target g.ifNotExists)
  | .stateGet, [] => .ok .stateGet
  | .statePut, [version] =>
    match versionOfText? version with
    | some version => .ok (.statePut version)
    | none => .error .malformedValue
  | _, _ => .error .missingArgument

/-- The invocation that some levels describe. -/
def ofLevels (levels : List (Level × Given)) : Except UsageError Invocation :=
  match levels.getLast? with
  | some (.verb verb, g) => do
    let action ← actionOf verb g
    return {
      action
      config := innermost (·.config) levels
      root := innermost (·.root) levels
      state := innermost (·.state) levels
      verbose := levels.any (·.2.verbose)
      format := ((innermost (·.format) levels).bind OutputFormat.ofName?).getD .text }
  | _ => .error .missingSubcommand

/-- What a command line asks for. -/
def parse (args : List String) : Except UsageError Invocation := do
  ofLevels (← Level.top.read {} false args)

end Invocation

end CommitStore
