import ModuleSplit.Config.Load
import ModuleSplit.Project.Package

-- Preparing a project: its configuration file, a directory for backups that version control
-- ignores, and scripts in its package file.

namespace ModuleSplit

namespace Init

open Text

structure Report where
  project : Path
  moment : Moment
  framework : Text
  configFile : Path
  backupDir : Path
  ignoreUpdated : Bool
  packageUpdated : Bool
  deriving DecidableEq, Repr

def configName : Text := ".auto-refactor.json".toList

def ignoreMarker : Text := "# Auto-refactor backups".toList

def backupDir (root : Path) (s : Settings) : Result Path :=
  match s.split.backupDirectory with
  | .text name => .ok (root.child name)
  | _ => .error .wrongType

def withIgnored (content name : Text) : Option Text :=
  let entry := trimRightBy (· == '/') name
  if occursIn entry content then none
  else
    let closed := if content.isEmpty || endsWith content "\n" then content else content ++ ['\n']
    some (closed ++ ['\n'] ++ ignoreMarker ++ ['\n'] ++ entry ++ ['/', '\n'])

def ignoreFile (root : Path) : Path := root.child ".gitignore".toList

def ignored (t : Tree) (p : Path) : Result Text := do
  if (← t.ask p).isSome then
    let bytes ← t.read p
    let text ← (Encoding.utf8.decodeFile bytes).mapError Failure.decode
    return plainNewlines text
  else return []

def amend (p : Path) (next : Tree → Result (Option Text)) : TreeM Bool := do
  let t ← get
  match ← TreeM.ofResult (next t) with
  | none => return false
  | some content =>
    set (← TreeM.ofResult (t.write p (Utf8.encode content)))
    return true

def updateIgnored (root : Path) (name : Text) : TreeM Bool :=
  amend (ignoreFile root) fun t => return withIgnored (← ignored t (ignoreFile root)) name

def updatePackage (root : Path) : TreeM Bool :=
  amend (Package.path root) fun t => do
    match ← Package.read? t root with
    | none => return none
    | some package => return (← Package.withScripts package).map Package.text

def makeDirs (p : Path) : TreeM PUnit := do
  let (outcome, made) := (← get).makeDirectories p
  set made
  TreeM.ofResult outcome

def chosen (t : Tree) (root : Path) (framework : Option Text) : Result Text :=
  match framework.filter (!·.isEmpty) with
  | some f => .ok f
  | none => Package.framework t root

def run (root : Path) (s : Settings) (framework : Option Text) (m : Moment) : TreeM Report := do
  let framework ← TreeM.ofResult (chosen (← get) root framework)
  let configFile := root.child configName
  s.saveBy .json (·.write configFile)
  let dir ← TreeM.ofResult (backupDir root s)
  makeDirs dir
  let name := s.split.backupDirectory.asText?.getD []
  let ignoreUpdated ← updateIgnored root name
  let packageUpdated ← updatePackage root
  return ⟨root, m, framework, configFile, dir, ignoreUpdated, packageUpdated⟩

end Init

end ModuleSplit
