import CommitStore.Command.Line

/-!
# Spelling command lines

Every invocation has a command line of its own: the options of the outermost level, each with its
value behind an equals sign, the words of the command, the options of the command, and behind `--`
the positional arguments.  Spelled in this way a value may be any text, one that looks like an
option or a command included; only a path that an option gives must not be empty
(`Invocation.HasPaths`).
-/

namespace CommitStore

/-- The long name of an option with a value. -/
def Setting.name : Setting → String
  | .config => "config"
  | .root => "root"
  | .state => "state"
  | .format => "format"
  | .file => "file"
  | .data => "data"

/-- The argument that gives an option a value. -/
def Setting.spell (setting : Setting) (value : String) : String :=
  "--" ++ setting.name ++ "=" ++ value

namespace Action

/-- The words that name the command. -/
def words : Action → List String
  | .put _ _ => ["put"]
  | .get _ => ["get"]
  | .head _ => ["head"]
  | .list _ => ["ls"]
  | .delete _ => ["rm"]
  | .move _ _ _ => ["mv"]
  | .stateGet => ["state", "get"]
  | .statePut _ => ["state", "put"]

/-- The options of the command. -/
def options : Action → List String
  | .put _ (.file path) => [Setting.file.spell path]
  | .put _ (.data text) => [Setting.data.spell text]
  | .move _ _ true => ["--if-not-exists"]
  | _ => []

/-- The positional arguments of the command. -/
def positionals : Action → List String
  | .put path _ => [path]
  | .get path => [path]
  | .head path => [path]
  | .list start => [start]
  | .delete path => [path]
  | .move source target _ => [source, target]
  | .stateGet => []
  | .statePut version => [String.ofList (Text.signedDecimal version.toInt)]

/-- The arguments that spell the command; `--` is left out when no positional argument follows. -/
def spell (action : Action) : List String :=
  action.words ++ action.options
    ++ if action.positionals.isEmpty then [] else "--" :: action.positionals

end Action

namespace Invocation

/-- The arguments for the outermost level. -/
def options (i : Invocation) : List String :=
  (i.config.map Setting.config.spell).toList ++ (i.root.map Setting.root.spell).toList
    ++ (i.state.map Setting.state.spell).toList
    ++ (if i.verbose then ["--verbose"] else []) ++ [Setting.format.spell i.format.name]

/-- The arguments that spell an invocation. -/
def spell (i : Invocation) : List String := i.options ++ i.action.spell

/-- The paths that the options of an invocation give are not empty. -/
def HasPaths (i : Invocation) : Prop :=
  i.config ≠ some "" ∧ i.root ≠ some "" ∧ i.state ≠ some ""
    ∧ match i.action with
      | .put _ (.file path) => path ≠ ""
      | _ => True

end Invocation

end CommitStore
