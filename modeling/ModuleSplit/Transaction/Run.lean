import ModuleSplit.Transaction.Basic

-- The phases of a transaction. A backup of the source comes before any change; then every file is
-- written, then every written file is checked. When writing or checking fails, what was created is
-- removed and what was there before is put back.

namespace ModuleSplit

structure Attempt where
  progress : Progress := {}
  store : Store

abbrev AttemptM := EStateM Failure Attempt

namespace AttemptM

def onStore {α : Type} (action : StoreM α) : AttemptM α := fun a =>
  match action a.store with
  | .ok v s => .ok v {a with store := s}
  | .error f s => .error f {a with store := s}

def progress : AttemptM Progress := fun a => .ok a.progress a

def update (f : Progress → Progress) : AttemptM PUnit := fun a =>
  .ok ⟨⟩ {a with progress := f a.progress}

-- What storage refuses becomes a failure of the phase; anything else stays what it is.
def named {α : Type} (name : Text → Failure) (action : AttemptM α) : AttemptM α :=
  tryCatch action fun f => match f with
    | .os e => throw (name e.message)
    | other => throw other

end AttemptM

namespace Transaction

open AttemptM

def preflight (t : Transaction) : AttemptM (Option Text) := do
  if t.overwrite then return none
  let taken ← onStore (t.files.findM? fun f =>
    if f.path = t.source then return false else Store.exists f.path)
  return taken.map fun f => "refusing to overwrite existing file ".toList ++ f.path.text

def saveSource (t : Transaction) (m : Moment) : AttemptM Path := do
  let _ ← onStore (Store.makeDirs t.backupDir)
  let target ← onStore (Backup.choose t.backupDir t.source m)
  onStore (Store.copy t.source target)
  return target

def backup (t : Transaction) (m : Moment) : AttemptM Backup := do
  if !(← onStore (Store.isFile t.source)) then
    throw (.backup t.source "file does not exist".toList)
  let target ← named (.backup t.source) (t.saveSource m)
  let record : Backup := ⟨t.source, target, m⟩
  update fun p => {p with backup := some record, phase := .backedUp}
  return record

def encode (t : Transaction) (text : Text) : Result Bytes :=
  t.codec.encode (if t.newline = ['\n'] then text
    else text.flatMap fun c => if c = '\n' then t.newline else [c])

def prepare (p : Path) : AttemptM PUnit := do
  let made ← onStore (Store.makeDirs p.parent)
  update fun g => {g with createdDirs := g.createdDirs ++ made}
  if ← onStore (Store.exists p) then
    let bytes ← onStore (Store.read p)
    update fun g => {g with previous := putContent p bytes g.previous}
  else
    update fun g => {g with createdFiles := g.createdFiles ++ [p]}

def writeFile (t : Transaction) (f : OutputFile) : AttemptM PUnit := do
  if f.path ≠ t.source then prepare f.path
  match t.encode f.text with
  | .ok bytes => onStore (Store.write f.path bytes)
  | .error failure => throw failure

def writeFiles (t : Transaction) : List OutputFile → AttemptM PUnit
  | [] => pure ⟨⟩
  | f :: rest => do
    named (.write f.path) (t.writeFile f)
    update fun g => {g with written := g.written ++ [f.path]}
    t.writeFiles rest

def write (t : Transaction) : AttemptM (List Path) := do
  t.writeFiles t.files
  update fun g => {g with phase := .written}
  return (← progress).written

def verifyFiles (t : Transaction) : List Path → AttemptM PUnit
  | [] => pure ⟨⟩
  | p :: rest => do
    match ← onStore (checkFile t.mode t.codec p) with
    | some fault => throw (.verification p fault.message)
    | none => t.verifyFiles rest

def verify (t : Transaction) : AttemptM PUnit := do
  t.verifyFiles (← progress).written
  update fun g => {g with phase := .verified}

def removeFiles (t : Transaction) : List Path → AttemptM PUnit
  | [] => pure ⟨⟩
  | p :: rest => do
    if p ≠ t.source then
      if ← onStore (Store.exists p) then onStore (Store.remove p)
    t.removeFiles rest

def restoreFiles : List (Path × Bytes) → AttemptM PUnit
  | [] => pure ⟨⟩
  | (p, bytes) :: rest => do
    onStore (Store.write p bytes)
    restoreFiles rest

def removeDirs : List Path → AttemptM PUnit
  | [] => pure ⟨⟩
  | p :: rest => do
    if ← onStore (Store.exists p) then onStore (Store.removeDir p)
    removeDirs rest

def undo (t : Transaction) : AttemptM PUnit := do
  let g ← progress
  t.removeFiles g.createdFiles.reverse
  restoreFiles g.previous
  removeDirs g.createdDirs.reverse
  match g.backup with
  | some b => onStore (Store.copy b.path t.source)
  | none => pure ⟨⟩

def rollback (t : Transaction) (cause : Option Text) : AttemptM PUnit := do
  let kept := (← progress).backup.map (·.path)
  named (fun reason => .rollback t.source kept reason cause) t.undo
  update fun g => {g with phase := .rolledBack}

def failed (t : Transaction) (setback : Setback) (f : Failure) : AttemptM Outcome := do
  t.rollback (some f.message)
  let g ← progress
  return {error := some (setback, f.message), written := g.written, phase := g.phase, backup := g.backup}

def succeeded : AttemptM Outcome := do
  let g ← progress
  return {written := g.written, phase := g.phase, backup := g.backup}

def commit (t : Transaction) : AttemptM Outcome :=
  tryCatch (do
    let _ ← t.write
    t.verify
    succeeded)
  fun f => match f with
    | .write _ _ => t.failed .write f
    | .verification _ _ => t.failed .verification f
    | other => throw other

-- The whole transaction. It fails when no backup can be made, in which case nothing has changed,
-- or when a failed attempt cannot be undone.
def run (t : Transaction) (m : Moment) : AttemptM Outcome := do
  if t.files.isEmpty then return {phase := (← progress).phase}
  match ← t.preflight with
  | some reason =>
    return {error := some (.collision, reason), phase := (← progress).phase}
  | none =>
    let _ ← t.backup m
    t.commit

end Transaction

end ModuleSplit
