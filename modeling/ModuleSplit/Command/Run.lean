import ModuleSplit.Command.Basic
import ModuleSplit.Command.Screen
import ModuleSplit.Config.Build

namespace ModuleSplit.Command

open Text

structure Surroundings where
  environment : String → Option Text := fun _ => none
  now : Moment
  -- what the clock shows when the turn of a file comes
  clock : Path → Moment := fun _ => now

def printed (t : Text) : Ending := {out := t}

def printedLine (t : Text) : Ending := printed (t ++ ['\n'])

def printedValue (v : Value) : Ending := printedLine (Json.pretty v)

def Ending.exitingUnless (e : Ending) (fine : Bool) : Ending := if fine then e else {e with exit := 1}

def initProject (s : Screen) (p : Project) (framework : Option Text) (m : Moment) :
    StoreM Ending := do
  let r ← (Init.run p.root p.settings framework m).onStore
  return printed (
    s.header "autorefactor initialized".toList p.root.text ++
    s.info ("Framework: ".toList ++ r.framework) ++
    s.success ("Configuration written to ".toList ++ r.configFile.text) ++
    s.success ("Backup directory: ".toList ++ r.backupDir.text) ++
    (if r.ignoreUpdated then s.success "Added backup directory to .gitignore".toList else []) ++
    (if r.packageUpdated then s.success "Added refactor scripts to package.json".toList else []))

def labelOf (root p : Path) : Text :=
  match p.partsBelow? root with
  | some parts => Path.text ⟨.relative, parts⟩
  | none => p.text

def scanText (s : Screen) (p : Project) (files : List Discovery.LongFile) : Result Text := do
  let limit := (← p.settings.split.maxLines.display) ++ " lines".toList
  if files.isEmpty then return s.success ("No files exceed ".toList ++ limit)
  return s.fileTable ("Files over ".toList ++ limit) (files.map fun f => (labelOf p.root f.path, f)) ++
      s.info (ofNat files.length ++ " file(s) need refactoring".toList)

def scanProject (s : Screen) (p : Project) (json : Bool) : StoreM Ending := do
  let files ← Store.ofResult (p.longFiles (← Store.treeNow))
  if json then return printedValue (.list (files.map (·.toValue)))
  return printed (← Store.ofResult (scanText s p files))

def runText (s : Screen) (dry : Bool) (reports : List SplitReport) : Text :=
  if reports.isEmpty then s.success "No files need refactoring".toList
  else
    let done := (reports.filter (·.success)).length
    s.header (if dry then "Dry run" else "Refactoring results").toList [] ++
      reports.flatMap s.report ++
      s.info (ofNat done ++ '/' :: ofNat reports.length ++
        " files processed successfully".toList)

def runProject (s : Screen) (p : Project) (dry json : Bool) (clock : Path → Moment) :
    StoreM Ending := do
  let reports ← p.run dry clock
  let ending := if json then printedValue (SplitReport.runValue reports)
    else printed (runText s dry reports)
  return ending.exitingUnless (reports.all (·.success))

def analyzeProject (s : Screen) (p : Project) (file : Text) (json : Bool) : StoreM Ending := do
  let a ← Store.ofResult (p.analyzeFile (← Store.treeNow) (.ofText file))
  let ending := if json then printedValue a.toValue else printed (s.analysis a)
  return ending.exitingUnless a.isValid

def showConfig (i : Invocation) (w : Surroundings) : StoreM Ending := do
  let settings ← Store.ofResult (Settings.load (← Store.treeNow) {
    file := i.configFile
    base := i.projectRoot
    environment := w.environment })
  return printedLine (← Store.ofResult settings.summary)

def createConfig (s : Screen) (path format : Text) : StoreM Ending := do
  let settings : Settings := {}
  (settings.save path (.named format)).onStore
  return printed (s.success ("Default configuration created at ".toList ++ path))

def checkConfig (s : Screen) (path : Text) : StoreM Ending := do
  match Settings.load (← Store.treeNow) {file := some path, useEnvironment := false} with
  | .ok _ => return printed (s.success ("Configuration file ".toList ++ path ++ " is valid".toList))
  | .error (.config problem) =>
    let words := "Configuration is invalid: ".toList ++ problem.message
    return {exit := 1, out := s.failure words}
  | .error f => throw f

def openProject (i : Invocation) (w : Surroundings) : StoreM Project := do
  let tree ← Store.treeNow
  let given := Path.ofText i.projectRoot
  Store.ofResult (Tree.accept given)
  let root := tree.resolve given
  let settings ← Store.ofResult (Settings.load tree {
    file := i.configFile
    base := root.text
    environment := w.environment })
  Store.ofResult (Project.ofSettings root settings)

def perform (i : Invocation) (w : Surroundings) : StoreM Ending := do
  let s : Screen := ⟨i.decorated⟩
  match i.task with
  | .help => return printed (printLines programGrammar.help)
  | .showConfig => showConfig i w
  | .createConfig path format => createConfig s path format
  | .checkConfig path => checkConfig s path
  | .init framework => initProject s (← openProject i w) framework w.now
  | .scan json => scanProject s (← openProject i w) json
  | .run dry json => runProject s (← openProject i w) dry json w.clock
  | .analyze file json => analyzeProject s (← openProject i w) file json

def failed (f : Failure) : Ending :=
  match f with
  | .interrupted => {exit := 1, err := "\nOperation cancelled by user\n".toList}
  | .rollback _ _ _ _ => {
      exit := 2
      err := printLines ["FATAL: ".toList ++ f.message,
        "The original file may be damaged. Restore it manually from the backup.".toList] }
  | f => {exit := 1, err := printLines ["Error: ".toList ++ f.message]}

def run (args : List Text) (w : Surroundings) (store : Store) : Ending × Store :=
  match Invocation.read args with
  | .error ending => (ending, store)
  | .ok i =>
    match perform i w store with
    | .ok ending store => (ending, store)
    | .error f store => (failed f, store)

end ModuleSplit.Command
