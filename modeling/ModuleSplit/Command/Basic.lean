import ModuleSplit.Command.Arguments
import ModuleSplit.Command.Help

namespace ModuleSplit.Command

open Text

inductive Task where
  | help
  | init (framework : Option Text)
  | scan (json : Bool)
  | run (dry json : Bool)
  | analyze (file : Text) (json : Bool)
  | showConfig
  | createConfig (path format : Text)
  | checkConfig (path : Text)
  deriving DecidableEq, Repr

structure Invocation where
  task : Task
  configFile : Option Text := none
  projectRoot : Text := ['.']
  decorated : Bool := true
  deriving DecidableEq, Repr

structure Ending where
  exit : Nat := 0
  out : Text := []
  err : Text := []
  deriving DecidableEq, Repr

def version : String := "0.1.0"

def programName : String := "autorefactor"

def commands : List (String × String) := [
  ("init", "Write configuration, backup directory and .gitignore entry"),
  ("scan", "List files exceeding the line threshold"),
  ("run", "Split every file exceeding the line threshold"),
  ("analyze", "Show how a single file would be split, without writing"),
  ("config", "Configuration management")]

def configActions : List (String × String) := [
  ("show", "Show the effective configuration"),
  ("create", "Write a default configuration"),
  ("validate", "Validate a configuration file")]

def programGrammar : Grammar where
  name := programName
  options := [
    .forHelp,
    ⟨["--config", "-c"], .take "config" "CONFIG" [], "Path to configuration file"⟩,
    ⟨["--project-root", "-p"], .take "project_root" "PROJECT_ROOT" [],
      "Project directory (default: current directory)"⟩,
    ⟨["--verbose", "-v"], .turnOn "verbose", "Enable verbose output and debug logging"⟩,
    ⟨["--no-rich"], .turnOn "no_rich", "Disable rich terminal output (use plain text)"⟩,
    ⟨["--version"], .showVersion, "show program's version number and exit"⟩]
  operand := .command "command" false "Available commands" commands
  description := "autorefactor - split oversized TS/JS files into per-category modules"
  epilog := "Use \"autorefactor <command> --help\" for detailed command help."

def formatOption : Opt :=
  ⟨["--format"], .take "format" "" ["text", "json"],
    "text for people, json for scripts (default: text)"⟩

def commandGrammar (command : String) (options : List Opt) (operand : Operand) : Grammar where
  name := programName ++ " " ++ command
  options := .forHelp :: options
  operand := operand

def initGrammar : Grammar :=
  commandGrammar "init" [
    ⟨["--framework"], .take "framework" "" ["nextjs", "react", "vue", "svelte", "unknown"],
      "Framework to record (auto-detected from package.json if not specified)"⟩] .none

def scanGrammar : Grammar := commandGrammar "scan" [formatOption] .none

def runGrammar : Grammar :=
  commandGrammar "run" [
    ⟨["--dry"], .turnOn "dry",
      "Analyze only; show what would be written without changing files"⟩,
    formatOption] .none

def analyzeGrammar : Grammar :=
  commandGrammar "analyze" [formatOption] (.value "file" "Source file to analyze")

def configGrammar : Grammar :=
  commandGrammar "config" [] (.command "config_action" true "" configActions)

def showGrammar : Grammar := commandGrammar "config show" [] .none

def createGrammar : Grammar :=
  commandGrammar "config create" [
    ⟨["--path"], .take "path" "PATH" [], "Output path (default: .auto-refactor.json)"⟩,
    ⟨["--format"], .take "format" "" ["json", "yaml"], "File format (default: json)"⟩] .none

def checkGrammar : Grammar :=
  commandGrammar "config validate" [] (.value "path" "Configuration file to validate")

def printLines (lines : List Text) : Text := lines.flatMap (· ++ ['\n'])

def Grammar.refuse (g : Grammar) (message : Text) : Ending where
  exit := 2
  err := printLines (g.usage ++ [(g.name ++ ": error: ").toList ++ message])

def Grammar.ending (g : Grammar) : Stop → Ending
  | .help => {out := printLines g.help}
  | .version => {out := printLines [(programName ++ " " ++ version).toList]}
  | .wrong message => g.refuse message

def Grammar.parse (g : Grammar) (args : List Text) : Except Ending Parsed :=
  (g.read args).mapError g.ending

def Parsed.json (p : Parsed) : Bool := p.value? "format" = some "json".toList

def Parsed.operandText (p : Parsed) : Text := ((p.operand.getD []).head?).getD []

abbrev Reading := Except Ending (Task × List Text)

def readConfigTask (args : List Text) : Reading := do
  let p ← configGrammar.parse args
  let (task, extras) ← match p.operand.getD [] with
    | [] => pure (Task.showConfig, [])
    | name :: args =>
      if name = "create".toList then do
        let q ← createGrammar.parse args
        pure (Task.createConfig ((q.value? "path").getD ".auto-refactor.json".toList)
          ((q.value? "format").getD "json".toList), q.extras)
      else if name = "validate".toList then do
        let q ← checkGrammar.parse args
        pure (Task.checkConfig q.operandText, q.extras)
      else do
        let q ← showGrammar.parse args
        pure (Task.showConfig, q.extras)
  return (task, p.extras ++ extras)

def readTask (name : Text) (args : List Text) : Reading := do
  match String.ofList name with
  | "init" =>
    let p ← initGrammar.parse args
    return (.init (p.value? "framework"), p.extras)
  | "scan" =>
    let p ← scanGrammar.parse args
    return (.scan p.json, p.extras)
  | "run" =>
    let p ← runGrammar.parse args
    return (.run (p.has "dry") p.json, p.extras)
  | "analyze" =>
    let p ← analyzeGrammar.parse args
    return (.analyze p.operandText p.json, p.extras)
  | _ => readConfigTask args

def Invocation.read (args : List Text) : Except Ending Invocation := do
  let p ← programGrammar.parse args
  let (task, extras) ← match p.operand.getD [] with
    | [] => pure (Task.help, [])
    | name :: rest => readTask name rest
  let extras := p.extras ++ extras
  if !extras.isEmpty then
    throw (programGrammar.refuse ("unrecognized arguments: ".toList ++ joinWith " " extras))
  return {
    task := task
    configFile := p.value? "config"
    projectRoot := (p.value? "project_root").getD ['.']
    decorated := !p.has "no_rich" }

end ModuleSplit.Command
