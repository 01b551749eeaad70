import ModuleSplit.Command.Run
import Std.Time.DateTime.Timestamp

-- The program as it is run. The files are read into a tree, the command works on the tree, and
-- what it has changed is written back. Only what lies below the working directory and below the
-- places that the arguments name is read.

namespace ModuleSplit.Program

abbrev Listing := List (Location × Node)

def nameOf (l : Location) : String := "/" ++ String.ofList (List.intercalate ['/'] l)

-- A link to a directory is not followed, and what cannot be read is left out.
partial def readEntry (above : Location) (entry : IO.FS.DirEntry) : IO Listing := do
  let l := above ++ [entry.fileName.toList]
  let file : IO Listing := do return [(l, .file (← IO.FS.readBinFile entry.path).toList)]
  try
    match (← entry.path.symlinkMetadata).type with
    | .dir =>
      let inside ← (← entry.path.readDir).toList.mapM (readEntry l)
      return (l, .directory) :: inside.flatten
    | .symlink =>
      -- Of a broken link it is not known how far it leads; it is taken to lead into no directory.
      if !(← entry.path.pathExists) then return [(l, .dangling)]
      else if ← entry.path.isDir then return [(l, .directory)]
      else file
    | _ => file
  catch _ => return []

def locationOf (name : String) : IO Location := do
  return (Path.ofString (← IO.FS.realPath name).toString).parts

def readPlace (name : String) : IO Listing := do
  let l ← locationOf name
  let real ← IO.FS.realPath name
  let above : Listing := (List.range (l.length - 1)).map fun n => (l.take (n + 1), .directory)
  if ← real.isDir then
    let inside ← (← real.readDir).toList.mapM (readEntry l)
    return above ++ (l, .directory) :: inside.flatten
  else return above ++ [(l, .file (← IO.FS.readBinFile real).toList)]

def merge (t : Tree) (found : Listing) : Tree :=
  {t with entries := t.entries ++ found.filter fun e => e.1 ≠ [] ∧ (t.get? e.1).isNone}

def placesIn (args : List String) : List String :=
  args ++ args.filterMap fun a => (Text.cut '=' a.toList).2.map String.ofList

def readTree (args : List String) : IO Tree := do
  let mut t : Tree := {workingDirectory := ← locationOf "."}
  for name in "." :: placesIn args do
    try t := merge t (← readPlace name) catch _ => pure ()
  return t

def writeChanges (old new : Tree) : IO Unit := do
  let order (l : Listing) : Listing := l.mergeSort fun a b => decide (a.1.length ≤ b.1.length)
  for (l, n) in (order old.entries).reverse do
    if new.get? l = none then
      if n = .directory then IO.FS.removeDir (nameOf l) else IO.FS.removeFile (nameOf l)
  for (l, n) in order new.entries do
    if old.get? l ≠ some n then
      match n with
      | .directory => IO.FS.createDirAll (nameOf l)
      | .file bytes => IO.FS.writeBinFile (nameOf l) (ByteArray.mk bytes.toArray)
      | .dangling => pure ()

def now : IO Moment := do
  let t ← Std.Time.Timestamp.now
  let micro := t.toNanosecondsSinceUnixEpoch.val.toNat / 1000
  return .ofEpoch (micro / 1000000) (micro % 1000000)

def surroundings : IO Command.Surroundings := do
  let values ← Environment.known.mapM fun v => do return (v.name, ← IO.getEnv v.name)
  return {
    environment := fun name => ((values.lookup name).join).map (·.toList)
    now := ← now }

def run (args : List String) : IO UInt32 := do
  let tree ← readTree args
  let (ending, store) := Command.run (args.map (·.toList)) (← surroundings) {tree := tree}
  writeChanges tree store.tree
  IO.print (String.ofList ending.out)
  IO.eprint (String.ofList ending.err)
  return ending.exit.toUInt32

end ModuleSplit.Program

def main (args : List String) : IO UInt32 := ModuleSplit.Program.run args
