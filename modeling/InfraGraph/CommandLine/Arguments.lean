import InfraGraph.Attachment.Address
import InfraGraph.Catalog.Refresher
import InfraGraph.CommandLine.LogFilter
import InfraGraph.Config.ModuleSource

/-!
# Arguments

A run is asked for by a command with parameters.  A parameter is given by its name behind two
dashes, its value follows behind an equals sign or as the next argument.  Some parameters belong to
every command and may stand in front of it as well.  What isn't given may come from a variable of
the environment, and then from a default.

Arguments are read from left to right.  The value of a parameter is only looked at when the next
parameter comes or the command is complete, so a request for help that comes first wins.
-/

namespace InfraGraph.CommandLine

/-- The variables of the environment. -/
abbrev Environment := String → Option String

/-- What the program can be asked to do. -/
inductive CommandName where
  | generate
  | importTree
  | catalog
  deriving DecidableEq, Repr

namespace CommandName

/-- All commands. -/
def all : List CommandName := [generate, importTree, catalog]

/-- The argument that stands for a command. -/
def word : CommandName → String
  | generate => "generate"
  | importTree => "import"
  | catalog => "catalog"

/-- The command that an argument stands for. -/
def ofWord? (word : String) : Option CommandName :=
  all.find? fun name => name.word = word

end CommandName

/-- What can be given with a command. -/
inductive Parameter where
  | logLevel
  | progress
  | storeAddress
  | moduleBase
  | graph
  | out
  /-- The directory to be imported, which is given without a name. -/
  | directory
  | modulesDirectory
  | refreshInterval
  | watch
  | help
  | version
  deriving DecidableEq, Repr

namespace Parameter

/-- All parameters that have a name. -/
def named : List Parameter :=
  [logLevel, progress, storeAddress, moduleBase, graph, out, modulesDirectory, refreshInterval,
    watch, help, version]

/-- The name of a parameter. -/
def word : Parameter → String
  | logLevel => "log-level"
  | progress => "progress"
  | storeAddress => "attachment-service-addr"
  | moduleBase => "module-source-base"
  | graph => "graph"
  | out => "out"
  | directory => "dir"
  | modulesDirectory => "modules-dir"
  | refreshInterval => "refresh-interval"
  | watch => "watch"
  | help => "help"
  | version => "version"

/-- The letter that stands for a parameter behind a single dash. -/
def letter? : Parameter → Option Char
  | help => some 'h'
  | version => some 'V'
  | _ => none

/-- Whether a parameter has a value. -/
def takesValue : Parameter → Bool
  | progress | watch | help | version => false
  | _ => true

/-- Whether a parameter may be given to a command, or in front of it. -/
def belongsTo : (command : Option CommandName) → Parameter → Bool
  | _, logLevel | _, progress | _, storeAddress | _, moduleBase | _, help => true
  | none, version => true
  | some .generate, graph | some .generate, out => true
  | some .importTree, directory | some .importTree, out => true
  | some .catalog, modulesDirectory | some .catalog, refreshInterval | some .catalog, watch => true
  | _, _ => false

/-- Whether a parameter can have a value.  Paths aren't empty. -/
def accepts (value : String) : Parameter → Bool
  | logLevel => (LogLevel.ofText? value).isSome
  | graph | out | directory | modulesDirectory => value ≠ ""
  | refreshInterval => (Text.natural? 0xFFFFFFFFFFFFFFFF value).isSome
  | _ => true

/-- The variable that a parameter comes from if it isn't given. -/
def environmentName? : Parameter → Option String
  | storeAddress => some "ATTACHMENT_SERVICE_ADDR"
  | moduleBase => some "MODULE_SOURCE_BASE"
  | modulesDirectory => some "MODULES_DIR"
  | _ => none

/-- The value of a parameter that comes from nowhere else. -/
def default? : Parameter → Option String
  | logLevel => some "INFO"
  | storeAddress => some "memory://"
  | moduleBase => some ModuleSource.defaultBase
  | refreshInterval => some (toString Refresher.defaultInterval)
  | _ => none

/-- The parameter with a name. -/
def ofWord? (command : Option CommandName) (word : String) : Option Parameter :=
  named.find? fun p => p.word = word ∧ p.belongsTo command

/-- The parameter with a letter. -/
def ofLetter? (command : Option CommandName) (letter : Char) : Option Parameter :=
  named.find? fun p => p.letter? = some letter ∧ p.belongsTo command

end Parameter

/-- Why arguments make no sense. -/
inductive Misuse where
  | unknownArgument (argument : String)
  | valueMissing (parameter : Parameter)
  | valueInvalid (parameter : Parameter) (value : String)
  | valueUnexpected (parameter : Parameter)
  | repeated (parameter : Parameter)
  | parameterMissing (parameter : Parameter)
  | commandMissing
  deriving DecidableEq, Repr

/-- The wording of a misuse. -/
def Misuse.message : Misuse → String
  | unknownArgument argument => "unexpected argument " ++ Text.quoted argument
  | valueMissing p => "a value is required for --" ++ p.word
  | valueInvalid p value => "invalid value " ++ Text.quoted value ++ " for --" ++ p.word
  | valueUnexpected p => "no value is expected for --" ++ p.word
  | repeated p => "--" ++ p.word ++ " cannot be used multiple times"
  | parameterMissing p => "--" ++ p.word ++ " is required"
  | commandMissing => "a command is required"

/-- What help is asked for. -/
inductive HelpTopic where
  | program
  | command (name : CommandName)
  | help
  deriving DecidableEq, Repr

/-- Why arguments ask for no command. -/
inductive Stop where
  | help (topic : HelpTopic)
  | version
  | misuse (fault : Misuse)
  deriving DecidableEq, Repr

/-- An argument by its form. -/
inductive Token where
  /-- Two dashes.  Everything behind them stands for itself. -/
  | separator
  /-- A name behind two dashes, and what follows its equals sign. -/
  | named (name : String) (value : Option String)
  /-- A letter behind a dash. -/
  | lettered (letter : Char)
  | plain (text : String)
  deriving DecidableEq, Repr

/-- The form of an argument. -/
def Token.ofArgument (argument : String) : Token :=
  match argument.toList with
  | ['-', '-'] => .separator
  | '-' :: '-' :: rest =>
    let name := String.ofList (rest.takeWhile (· ≠ '='))
    match rest.dropWhile (· ≠ '=') with
    | [] => .named name none
    | _ :: value => .named name (some (String.ofList value))
  | '-' :: letter :: _ => .lettered letter
  | _ => .plain argument

/-- The parameters that are given, with their values. -/
abbrev Given := List (Parameter × String)

namespace Given

/-- The value of a parameter. -/
def value? (given : Given) (p : Parameter) : Option String :=
  (given.find? fun entry => entry.1 = p).map (·.2)

/-- Takes the value of a parameter, unless it makes no sense or the parameter has one already. -/
def add (given : Given) (p : Parameter) (value : String) : Except Stop Given :=
  if ¬p.accepts value then .error (.misuse (.valueInvalid p value))
  else if (given.value? p).isSome then .error (.misuse (.repeated p))
  else .ok (given ++ [(p, value)])

end Given

/-- The parameters that were read so far. -/
structure Reading where
  /-- Those whose values are settled. -/
  given : Given
  /-- The last one, whose value is not looked at yet or still to come. -/
  pending : Option (Parameter × Option String)

namespace Reading

/-- Nothing was read. -/
def nothing : Reading := ⟨[], none⟩

/-- Looks at the value of the last parameter. -/
def settle (r : Reading) : Except Stop Given :=
  match r.pending with
  | none => .ok r.given
  | some (p, none) => .error (.misuse (.valueMissing p))
  | some (p, some value) => r.given.add p value

/-- Whether the next argument is a value. -/
def awaitsValue (r : Reading) : Bool :=
  match r.pending with
  | some (_, none) => true
  | _ => false

/-- Whether a parameter was given before. -/
def has (r : Reading) (p : Parameter) : Bool :=
  (r.given.value? p).isSome || r.pending.any fun entry => entry.1 = p

/-- What help a request in a command is for. -/
def topicIn : Option CommandName → HelpTopic
  | none => .program
  | some name => .command name

/-- Reads a parameter that is given by its name or letter. -/
def readParameter (command : Option CommandName) (r : Reading) (p : Parameter)
    (value : Option String) : Except Stop Reading :=
  if p.takesValue then do
    let given ← r.settle
    match value with
    | some value => return ⟨← given.add p value, none⟩
    | none => return ⟨given, some (p, none)⟩
  else if value.isSome then .error (.misuse (.valueUnexpected p))
  else do
    let given ← r.settle
    if p = .help then throw (.help (topicIn command))
    if p = .version then throw .version
    return ⟨← given.add p "", none⟩

/-- Reads an argument without a name. -/
def readPlain (command : Option CommandName) (r : Reading) (argument : String) :
    Except Stop Reading :=
  if Parameter.belongsTo command .directory ∧ ¬r.has .directory then do
    return ⟨← r.settle, some (.directory, some argument)⟩
  else .error (.misuse (.unknownArgument argument))

/-- Reads an argument. -/
def readArgument (command : Option CommandName) (r : Reading) (argument : String) :
    Except Stop Reading :=
  match Token.ofArgument argument with
  | .named name value =>
    match Parameter.ofWord? command name with
    | some p => r.readParameter command p value
    | none => .error (.misuse (.unknownArgument argument))
  | .lettered letter =>
    match Parameter.ofLetter? command letter with
    | some p => r.readParameter command p none
    | none => .error (.misuse (.unknownArgument argument))
  | _ =>
    match r.pending with
    | some (p, none) => .ok ⟨r.given, some (p, some argument)⟩
    | _ => r.readPlain command argument

/-- Reads arguments that all stand for themselves. -/
def readPlainOnes (command : Option CommandName) (r : Reading) (arguments : List String) :
    Except Stop Reading :=
  arguments.foldlM (readPlain command) r

/-- Reads the arguments behind a command. -/
def readCommand (name : CommandName) : (r : Reading) → List String → Except Stop Reading
  | r, [] => .ok r
  | r, argument :: rest =>
    if Token.ofArgument argument = .separator then readPlainOnes (some name) r rest
    else do
      let r ← r.readArgument (some name) argument
      readCommand name r rest

/-- The help that is asked for by the words behind `help`. -/
def helpAbout : List String → Stop
  | [] => .help .program
  | word :: rest =>
    match CommandName.ofWord? word, rest with
    | some name, [] => .help (.command name)
    | none, [] => if word = "help" then .help .help else .misuse (.unknownArgument word)
    | _, other :: _ => .misuse (.unknownArgument other)

/-- Reads the arguments up to the command.  Answers with what stands in front of it and what stands
behind it. -/
def readFront : (r : Reading) → List String → Except Stop (Reading × CommandName × Reading)
  | _, [] => .error (.misuse .commandMissing)
  | r, argument :: rest =>
    if r.awaitsValue = false ∧ argument = "help" then .error (helpAbout rest)
    else
      match if r.awaitsValue then none else CommandName.ofWord? argument with
      | some name => do return (r, name, ← readCommand name nothing rest)
      | none =>
        if Token.ofArgument argument = .separator then .error (.misuse .commandMissing)
        else do
          let r ← r.readArgument none argument
          readFront r rest

end Reading

/-- A command with everything it needs. -/
inductive Command where
  /-- Writes the archive of the graph in a file to another file. -/
  | generate (graph out : String)
  /-- Writes the graph of a tree to a file, or prints it. -/
  | importTree (directory : String) (out : Option String)
  /-- Prints the catalog of a directory, after watching it or at once. -/
  | catalog (directory : String) (interval : Nat) (watch : Bool)
  deriving DecidableEq, Repr

/-- What the arguments of a run ask for. -/
structure Invocation where
  logLevel : LogLevel
  progress : Bool
  storeAddress : String
  moduleBase : String
  command : Command
  deriving DecidableEq, Repr

namespace Invocation

/-- The value of a parameter: what was given for the command, or in front of it, or by a variable,
or the default. -/
def value? (environment : Environment) (inner outer : Given) (p : Parameter) :
    Except Stop (Option String) :=
  match inner.value? p, outer.value? p, p.environmentName?.bind environment with
  | some value, _, _ => .ok (some value)
  | none, some value, _ => .ok (some value)
  | none, none, some value =>
    if p.accepts value then .ok (some value) else .error (.misuse (.valueInvalid p value))
  | none, none, none => .ok p.default?

/-- The value of a parameter that a command can't do without. -/
def required (value? : Parameter → Except Stop (Option String)) (p : Parameter) :
    Except Stop String := do
  match ← value? p with
  | some value => .ok value
  | none => .error (.misuse (.parameterMissing p))

/-- A command with the values of its parameters. -/
def commandOf (value? : Parameter → Except Stop (Option String)) :
    CommandName → Except Stop Command
  | .generate => return .generate (← required value? .graph) (← required value? .out)
  | .importTree => return .importTree (← required value? .directory) (← value? .out)
  | .catalog => do
    let interval ← required value? .refreshInterval
    return .catalog (← required value? .modulesDirectory)
      ((Text.natural? 0xFFFFFFFFFFFFFFFF interval).getD Refresher.defaultInterval)
      (← value? .watch).isSome

/-- Reads the arguments of a run. -/
def parse (environment : Environment) (arguments : List String) : Except Stop Invocation := do
  let (front, name, behind) ← Reading.readFront .nothing arguments
  let inner ← behind.settle
  let command ← commandOf (value? environment inner []) name
  let outer ← front.settle
  let given := value? environment inner outer
  let level ← required given .logLevel
  return {
    logLevel := (LogLevel.ofText? level).getD .info
    progress := (← given .progress).isSome
    storeAddress := ← required given .storeAddress
    moduleBase := ← required given .moduleBase
    command := command }

end Invocation

end InfraGraph.CommandLine
