import InfraGraph.CommandLine.Arguments

/-!
# Help

The help on a topic says what it is for, how it is called, and which commands and parameters it has.
Every parameter has a line for its form and one for its description, which ends with the variable
and the default that it may come from.
-/

namespace InfraGraph.CommandLine

/-- The name that the program is called by. -/
def programName : String := "tgflow"

/-- The name and the number of this version. -/
def versionText : String := "tgflow-cli 0.1.0\n"

namespace Parameter

/-- What stands for the value of a parameter in its form. -/
def placeholder : Parameter → String
  | logLevel => "LOG_LEVEL"
  | storeAddress => "ATTACHMENT_SERVICE_ADDR"
  | moduleBase => "MODULE_SOURCE_BASE"
  | graph => "GRAPH"
  | out => "OUT"
  | directory => "DIR"
  | modulesDirectory => "MODULES_DIR"
  | refreshInterval => "REFRESH_INTERVAL"
  | _ => ""

/-- What a parameter is for. -/
def description : Parameter → String
  | logLevel =>
    "A global log level to use when printing logs. It's also possible to set `RUST_LOG` " ++
      "according to `tracing_subscriber::filter::EnvFilter`, which will always have priority"
  | progress => "Draw progress bars for long running operations"
  | storeAddress => "Where attachments are stored, `memory://` or `simplefs:///some/dir`"
  | moduleBase => "Prefix of every generated module source, the module name is appended"
  | graph => "Graph as saved by the editor, `\x7b\"nodes\": [...], \"edges\": [...]\x7d`"
  | out => ""
  | directory => ""
  | modulesDirectory => ""
  | refreshInterval => "Seconds between two refreshes in watch mode"
  | watch => "Keep refreshing until interrupted, then print the last catalog"
  | help => "Print help"
  | version => "Print version"

/-- What a parameter is for in a command.  Commands use the same name for different files. -/
def descriptionIn (command : Option CommandName) (p : Parameter) : String :=
  if p = out ∧ command = some .importTree then "Write the graph here instead of stdout"
  else p.description

/-- Where the value of a parameter comes from if it isn't given. -/
def origin (environment : Environment) (p : Parameter) : List String :=
  let fromVariable :=
    match p.environmentName? with
    | some name => ["[env: " ++ name ++ "=" ++ (environment name).getD "" ++ "]"]
    | none => []
  match p.default? with
  | some value => fromVariable ++ ["[default: " ++ value ++ "]"]
  | none => fromVariable

/-- The name of a parameter with its value. -/
def usage (p : Parameter) : String :=
  "--" ++ p.word ++ if p.takesValue then " <" ++ p.placeholder ++ ">" else ""

/-- The form of a parameter, indented so that the names stand below one another. -/
def form (p : Parameter) : String :=
  match p.letter? with
  | some letter => "  -" ++ letter.toString ++ ", " ++ p.usage
  | none => "      " ++ p.usage

/-- The two lines on a parameter. -/
def lines (environment : Environment) (command : Option CommandName) (p : Parameter) : String :=
  let words := [p.descriptionIn command].filter (· ≠ "") ++ p.origin environment
  p.form ++ "\n          " ++ String.intercalate " " words

end Parameter

namespace HelpTopic

/-- What a topic is for. -/
def about : HelpTopic → String
  | program => "Compiles infrastructure graphs into terragrunt trees and back"
  | command .generate => "Generates the zip archive of a saved graph"
  | command .importTree => "Scans an existing tree and prints the reconstructed graph"
  | command .catalog => "Prints the catalog of modules found in a modules checkout"
  | help => "Print this message or the help of the given subcommand(s)"

/-- How a topic is called. -/
def usage : HelpTopic → String
  | program => "[OPTIONS] <COMMAND>"
  | command .generate =>
    "generate [OPTIONS] " ++ Parameter.graph.usage ++ " " ++ Parameter.out.usage
  | command .importTree => "import [OPTIONS] <DIR>"
  | command .catalog => "catalog [OPTIONS] " ++ Parameter.modulesDirectory.usage
  | help => "help [COMMAND]..."

/-- The command that a topic is about. -/
def command? : HelpTopic → Option CommandName
  | command name => some name
  | _ => none

/-- The parameters of a topic, in the order in which they are listed. -/
def parameters : HelpTopic → List Parameter
  | program => [.logLevel, .progress, .storeAddress, .moduleBase, .help, .version]
  | command .generate =>
    [.graph, .logLevel, .out, .progress, .storeAddress, .moduleBase, .help]
  | command .importTree => [.logLevel, .out, .progress, .storeAddress, .moduleBase, .help]
  | command .catalog =>
    [.logLevel, .modulesDirectory, .progress, .refreshInterval, .storeAddress, .watch, .moduleBase,
      .help]
  | help => []

/-- A word with blanks behind it, so that what follows is aligned. -/
def padded (word : String) : String :=
  word ++ String.ofList (List.replicate (10 - word.length) ' ')

/-- The lines on the commands. -/
def commandLines : String :=
  let command (word : String) (topic : HelpTopic) := "  " ++ padded word ++ topic.about
  String.intercalate "\n"
    (CommandName.all.map (fun name => command name.word (.command name)) ++
      [command "help" .help])

/-- The parts of the help on a topic that stand between its usage and its parameters. -/
def sections : HelpTopic → List String
  | program => ["Commands:\n" ++ commandLines]
  | command .importTree => ["Arguments:\n  <DIR>  "]
  | help => ["Arguments:\n  [COMMAND]...  Print help for the subcommand(s)"]
  | _ => []

/-- The help on a topic. -/
def text (environment : Environment) (topic : HelpTopic) : String :=
  let head := topic.about ++ "\n\nUsage: " ++ programName ++ " " ++ topic.usage
  let options :=
    match topic.parameters with
    | [] => []
    | parameters =>
      ["Options:\n" ++ String.intercalate "\n"
        (parameters.map (Parameter.lines environment topic.command?))]
  String.intercalate "\n\n" (head :: topic.sections ++ options) ++ "\n"

end HelpTopic

end InfraGraph.CommandLine
