import ModuleSplit.Output.Analysis
import ModuleSplit.Plan.Build
import ModuleSplit.Project.Discovery
import ModuleSplit.Project.Init
import ModuleSplit.Transaction.Run

namespace ModuleSplit

structure Project where
  root : Path
  settings : Settings
  patterns : Patterns
  codec : Codec

structure SplitReport where
  file : Path
  newFiles : List Path := []
  linesReduced : Nat := 0
  success : Bool := false
  error : Option Text := none
  analysis : Option Analysis := none
  warnings : List Text := []
  backup : Option Path := none
  dryRun : Bool := false
  deriving DecidableEq, Repr

namespace Project

def ofSettings (root : Path) (s : Settings) : Result Project := do
  return ⟨root, s, ← Patterns.compile s.classification, .ofValue s.split.encoding⟩

def mode (p : Project) : DelimiterMode := p.settings.split.delimiters

def outputs (p : Project) : OutputMode := p.settings.split.outputs

def backupDir (p : Project) : Result Path := Init.backupDir p.root p.settings

def resolve (p : Project) (path : Path) : Path := p.root.join path

def load (p : Project) (t : Tree) (path : Path) : Result Source := do
  p.codec.usable
  let path := p.resolve path
  let bytes ← t.read path
  return .ofText (← p.codec.decodeFile bytes) path

def planFile (p : Project) (t : Tree) (path : Path) : Result Plan := do
  Plan.build (← p.load t path) p.patterns p.mode

def synthesis (p : Project) (plan : Plan) : Synthesis := plan.synthesize p.outputs

def analysis (p : Project) (plan : Plan) : Analysis := analyze plan (p.synthesis plan) p.mode

def analyzeFile (p : Project) (t : Tree) (path : Path) : Result Analysis := do
  return p.analysis (← p.planFile t path)

def longFiles (p : Project) (t : Tree) : Result (List Discovery.LongFile) :=
  Discovery.longFiles t p.root p.settings p.codec

def transaction (p : Project) (source : Path) (files : List OutputFile) (codec : Codec)
    (newline : Text) : Result Transaction := do
  return {
    source := source
    files := files
    backupDir := ← p.backupDir
    codec := codec
    mode := p.mode
    newline := newline
    overwrite := p.settings.split.overwriteExisting.isTruthy }

def perform {α : Type} (action : AttemptM α) : StoreM α := fun s =>
  match action {store := s} with
  | .ok a attempt => .ok a attempt.store
  | .error f attempt => .error f attempt.store

def commit (p : Project) (source : Path) (files : List OutputFile) (codec : Codec)
    (newline : Text) (m : Moment) : StoreM Outcome := do
  let t ← Store.ofResult (p.transaction source files codec newline)
  perform (t.run m)

def filesOf (s : Synthesis) (source : Source) : List OutputFile :=
  if s.isEmpty then [] else s.files ++ [⟨source.path, s.replacement⟩]

def reportOf (plan : Plan) (a : Analysis) (o : Outcome) : SplitReport :=
  let done := o.success && !o.isNoop
  { file := plan.source.path
    newFiles := if done then o.written.filter (· ≠ plan.source.path) else []
    linesReduced := if done then a.estimatedReduction else 0
    success := o.success
    error := o.error.map (·.2)
    analysis := some a
    warnings := plan.warnings.map (·.shown)
    backup := o.backup.map (·.path) }

-- Splits one file, however long it is. That a transaction did not commit is reported and no
-- failure.
def refactorFile (p : Project) (path : Path) (m : Moment) : StoreM SplitReport := do
  let plan ← Store.ofResult (p.planFile (← Store.treeNow) path)
  let outcome ← p.commit plan.source.path (filesOf (p.synthesis plan) plan.source) p.codec
    plan.source.newline.text m
  return reportOf plan (p.analysis plan) outcome

def dryRun (p : Project) (t : Tree) (path : Path) : Result SplitReport := do
  let a ← p.analyzeFile t path
  return {
    file := path
    newFiles := (a.files.map (·.1)).filter (· ≠ path)
    linesReduced := a.estimatedReduction
    success := a.isValid
    error := if a.isValid then none else some (Text.joinWith "; " a.errors)
    analysis := some a
    warnings := a.warnings.map (·.shown)
    dryRun := true }

-- A file that cannot be read or backed up is reported, and the others go on.
def reported (path : Path) (action : StoreM SplitReport) : StoreM SplitReport :=
  tryCatch action fun f => match f with
    | .backup _ _ | .os _ | .decode _ => return {file := path, error := some f.message}
    | other => throw other

-- Each file comes with the reading of the clock when its turn comes.
def runFiles (p : Project) (dry : Bool) : List (Path × Moment) → StoreM (List SplitReport)
  | [] => return []
  | (path, m) :: rest => do
    let report ← reported path (do
      if dry then Store.ofResult (p.dryRun (← Store.treeNow) path) else p.refactorFile path m)
    return report :: (← p.runFiles dry rest)

def run (p : Project) (dry : Bool) (clock : Path → Moment) : StoreM (List SplitReport) := do
  let files ← Store.ofResult (p.longFiles (← Store.treeNow))
  p.runFiles dry (files.map fun f => (f.path, clock f.path))

def backup (p : Project) (path : Path) (m : Moment) : StoreM Backup := do
  let t ← Store.ofResult (p.transaction path [] p.codec ['\n'])
  perform (t.backup m)

def restore (b : Backup) : StoreM PUnit := Store.copy b.path b.source

end Project

def TreeM.onStore {α : Type} (action : TreeM α) : StoreM α := fun s =>
  match action s.tree with
  | .ok a t => .ok a {s with tree := t}
  | .error f t => .error f {s with tree := t}

section

open Value

-- Reports as structured data, for other programs to read.
def Path.toValue (p : Path) : Value := .text p.text

def Analysis.toValue (a : Analysis) : Value :=
  object [("path", a.path.toValue), ("total_lines", ofNat a.totalLines),
    ("import_count", ofNat a.importCount),
    ("block_counts", object (a.blockCounts.map fun (c, n) => (c.name, ofNat n))),
    ("files", .list (a.files.map (·.1.toValue))),
    ("estimated_reduction", ofNat a.estimatedReduction),
    ("warnings", texts (a.warnings.map (·.shown))), ("errors", texts a.errors)]

def SplitReport.toValue (r : SplitReport) : Value :=
  object [("original_file", r.file.toValue), ("new_files", .list (r.newFiles.map (·.toValue))),
    ("lines_reduced", ofNat r.linesReduced), ("success", .bool r.success),
    ("error", ofOption .text r.error), ("analysis", ofOption Analysis.toValue r.analysis),
    ("warnings", texts r.warnings), ("backup_path", ofOption Path.toValue r.backup),
    ("dry_run", .bool r.dryRun)]

def Discovery.LongFile.toValue (f : Discovery.LongFile) : Value :=
  object [("path", f.path.toValue), ("lines", ofNat f.lines), ("framework", .text f.framework)]

def SplitReport.runValue (reports : List SplitReport) : Value :=
  object [("success", .bool (reports.all (·.success))),
    ("files_processed", ofNat reports.length), ("results", .list (reports.map (·.toValue)))]

end

end ModuleSplit
