import ModuleSplit.Delimiter.Lexer
import ModuleSplit.Output.Synthesis
import ModuleSplit.Store.Basic
import ModuleSplit.Text.Codec

namespace ModuleSplit

inductive Phase where
  | idle
  | backedUp
  | written
  | verified
  | rolledBack
  deriving DecidableEq, Repr

def Phase.name : Phase → String
  | .idle => "idle"
  | .backedUp => "backed_up"
  | .written => "written"
  | .verified => "verified"
  | .rolledBack => "rolled_back"

structure Backup where
  source : Path
  path : Path
  moment : Moment
  deriving DecidableEq, Repr

-- What a transaction is to do. The source comes last among the files.
structure Transaction where
  source : Path
  files : List OutputFile
  backupDir : Path
  codec : Codec
  mode : DelimiterMode := .literalAware
  newline : Text := ['\n']
  overwrite : Bool := false

-- What a transaction has done. Everything that a rollback needs is here, however early it starts.
structure Progress where
  phase : Phase := .idle
  backup : Option Backup := none
  written : List Path := []
  -- files that were not there before
  createdFiles : List Path := []
  createdDirs : List Path := []
  -- former contents of files other than the source
  previous : List (Path × Bytes) := []
  deriving DecidableEq, Repr

def putContent (p : Path) (bytes : Bytes) : List (Path × Bytes) → List (Path × Bytes)
  | [] => [(p, bytes)]
  | (q, old) :: rest => if q = p then (q, bytes) :: rest else (q, old) :: putContent p bytes rest

inductive Setback where
  | collision
  | write
  | verification
  deriving DecidableEq, Repr

def Setback.name : Setback → String
  | .collision => "collision"
  | .write => "write"
  | .verification => "verification"

structure Outcome where
  error : Option (Setback × Text) := none
  written : List Path := []
  phase : Phase
  backup : Option Backup := none
  warnings : List Warning := []
  deriving DecidableEq, Repr

namespace Outcome

def success (o : Outcome) : Bool := o.error.isNone

def isNoop (o : Outcome) : Bool := o.success && o.written.isEmpty

end Outcome

namespace Backup

def fileName (source : Path) (m : Moment) (attempt : Nat) : Text :=
  source.name ++ ['-'] ++ m.stamp ++
    (if attempt = 0 then [] else '-' :: Text.ofNat attempt) ++ ".backup".toList

-- The first name that is free. There are more names to try than entries in the tree.
def choose (dir source : Path) (m : Moment) : StoreM Path := do
  let candidate (attempt : Nat) := dir.child (fileName source m attempt)
  let size := (← Store.treeNow).size
  let free ← ((List.range (size + 1)).map candidate).findM? fun p => do
    return !(← Store.exists p)
  return free.getD (candidate (size + 1))

end Backup

inductive FileFault where
  | missing
  | unreadable (words : Text)
  | text (fault : TextFault)
  deriving DecidableEq, Repr

def FileFault.message : FileFault → Text
  | .missing => "file does not exist".toList
  | .unreadable words => "file cannot be read back: ".toList ++ words
  | .text fault => fault.message

-- Storage and codec may refuse for reasons that are found here; any other failure is the caller's.
def checkFile (mode : DelimiterMode) (codec : Codec) (p : Path) : StoreM (Option FileFault) := do
  if !(← Store.isFile p) then return some .missing
  try
    let bytes ← Store.read p
    match codec.decode bytes with
    | .ok t => return (checkText mode t).map .text
    | .error f => throw f
  catch
    | .os e => return some (.unreadable e.message)
    | .decode f => return some (.unreadable f.message.toList)
    | f => throw f

end ModuleSplit
