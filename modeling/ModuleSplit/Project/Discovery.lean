import ModuleSplit.Config.Build
import ModuleSplit.Project.Glob
import ModuleSplit.Project.Package
import ModuleSplit.Text.Codec

namespace ModuleSplit

namespace Discovery

abbrev Matching := Text → Text → Bool

def projectParts (root p : Path) : List Text := (p.partsBelow? root).getD p.allParts

-- Does any of the parts match any of the patterns? A pattern that is no text cannot be compared.
def anyMatches (matching : Matching) (parts : List Text) : List Value → Result Bool
  | [] => .ok false
  | .text pattern :: rest =>
    if parts.any fun part => matching part pattern then .ok true else anyMatches matching parts rest
  | _ :: rest => if parts.isEmpty then anyMatches matching parts rest else .error .wrongType

def isExcluded (matching : Matching) (root p : Path) (patterns : List Value) : Result Bool :=
  anyMatches matching (projectParts root p) patterns

structure Search where
  root : Path
  extensions : List Value
  excluded : List Value
  matching : Matching := Glob.isMatch

def Search.accepts (s : Search) (p : Path) : Result Bool := do
  if !(← endsWithAny p.name s.extensions) then return false
  return !(← isExcluded s.matching s.root p s.excluded)

def visit (s : Search) (enter : Path → Location → Result (List Path)) (p : Path) (l : Location) :
    Text × Node → Result (List Path)
  | (name, .directory) => do
    if ← isExcluded s.matching s.root (p.child name) s.excluded then return []
    enter (p.child name) (l ++ [name])
  | (name, _) => return if ← s.accepts (p.child name) then [p.child name] else []

-- Files in a directory and below it. One whose path is too long cannot be listed. The depth of a
-- tree is at most the number of its entries.
def walk (s : Search) (t : Tree) : Nat → Path → Location → Result (List Path)
  | 0, _, _ => .ok []
  | fuel + 1, p, l => do
    if Tree.pathLimit ≤ Utf8.size p.text then return []
    return (← (t.children l).mapM (visit s (walk s t fuel) p l)).flatten

def filesBelow (s : Search) (t : Tree) (target : Value) : Result (List Path) := do
  match target with
  | .text name =>
    let p := s.root.child name
    match ← t.ask p, t.locate p with
    | some .directory, .ok l => walk s t (t.size + 1) p l
    | _, _ => return []
  | _ => throw .wrongType

def search (root : Path) (d : DiscoverySettings) : Search where
  root := root
  extensions := d.fileExtensions
  excluded := d.excludePatterns

def sourceFilesOf (s : Search) (t : Tree) (targets : List Value) : Result (List Path) := do
  let found ← targets.mapM (filesBelow s t)
  return (distinct found.flatten).mergeSort Path.le

def sourceFiles (t : Tree) (root : Path) (d : DiscoverySettings) : Result (List Path) :=
  sourceFilesOf (search root d) t d.targetDirectories

def countLines (t : Tree) (codec : Codec) (p : Path) : Result Nat := do
  codec.usable
  let bytes ← t.read p
  return Text.lineCount (Text.plainNewlines (← codec.decodeLossy bytes))

structure LongFile where
  path : Path
  lines : Nat
  framework : Text
  deriving DecidableEq, Repr

def exceeds (lines : Nat) : Value → Result Bool
  | .int most => .ok (most < lines)
  | .bool most => .ok ((if most then 1 else 0) < lines)
  | .float most => .ok (most.isBelow lines)
  | _ => .error .wrongType

-- A file if it is longer than the limit. One that cannot be read is passed over.
def ifLong (t : Tree) (codec : Codec) (maxLines : Value) (framework : Text) (p : Path) :
    Result (List LongFile) :=
  match countLines t codec p with
  | .ok lines => return if ← exceeds lines maxLines then [⟨p, lines, framework⟩] else []
  | .error (.os _) => .ok []
  | .error f => .error f

def longFilesOf (s : Search) (t : Tree) (targets : List Value) (codec : Codec)
    (maxLines : Value) : Result (List LongFile) := do
  let framework ← Package.framework t s.root
  let files ← sourceFilesOf s t targets
  return (← files.mapM (ifLong t codec maxLines framework)).flatten

def longFiles (t : Tree) (root : Path) (s : Settings) (codec : Codec) :
    Result (List LongFile) :=
  longFilesOf (search root s.discovery) t s.discovery.targetDirectories codec s.split.maxLines

end Discovery

end ModuleSplit
