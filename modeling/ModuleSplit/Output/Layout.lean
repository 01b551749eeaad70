import ModuleSplit.Classification.Classify
import ModuleSplit.Config.Settings

namespace ModuleSplit

structure Layout where
  sourcePath : Path
  mode : OutputMode := .sibling
  deriving DecidableEq, Repr

namespace Layout

open Text

def baseName (l : Layout) : Text := l.sourcePath.stem

def extension (l : Layout) : Text := l.sourcePath.suffix

def sourceDir (l : Layout) : Path := l.sourcePath.parent

def outputDir (l : Layout) : Path :=
  match l.mode with
  | .sibling => l.sourceDir
  | .directory => l.sourceDir.child l.baseName

def importDepth (l : Layout) : Nat :=
  match l.mode with
  | .sibling => 0
  | .directory => 1

def indexName (l : Layout) : Text :=
  match l.mode with
  | .sibling => l.baseName ++ "-index".toList ++ l.extension
  | .directory => "index".toList ++ l.extension

def indexPath (l : Layout) : Path := l.outputDir.child l.indexName

def categoryStem (l : Layout) (c : Category) : Text := l.baseName ++ ['-'] ++ c.text

def categoryPath (l : Layout) (c : Category) : Path :=
  l.outputDir.child (l.categoryStem c ++ l.extension)

def categoryModule (l : Layout) (c : Category) : Text := "./".toList ++ l.categoryStem c

def indexModule (l : Layout) : Text :=
  match l.mode with
  | .sibling => "./".toList ++ l.baseName ++ "-index".toList
  | .directory => "./".toList ++ l.baseName ++ "/index".toList

def capitalized : Text → Text
  | [] => []
  | c :: rest => upperChar c ++ rest

def identifierFor (base : Text) : Text :=
  let joined := ((splitOn '-' base).map capitalized).flatten.map fun c =>
    if isIdentChar c then c else '_'
  match joined with
  | [] => ['_']
  | c :: _ => if isDigit c then '_' :: joined else joined

end Layout

end ModuleSplit
