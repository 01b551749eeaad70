import ModuleSplit.Delimiter.Lexer
import ModuleSplit.Output.Synthesis

namespace ModuleSplit

structure Analysis where
  path : Path
  totalLines : Nat
  importCount : Nat := 0
  blockCounts : List (Category × Nat) := []
  -- the source itself is the last of them
  files : List (Path × Nat) := []
  estimatedReduction : Nat := 0
  warnings : List Warning := []
  errors : List Text := []
  deriving DecidableEq, Repr

namespace Analysis

def wouldSplit (a : Analysis) : Bool := !a.files.isEmpty

def isValid (a : Analysis) : Bool := a.errors.isEmpty

end Analysis

def OutputFile.fault? (mode : DelimiterMode) (f : OutputFile) : Option Text :=
  (checkText mode f.text).map fun fault => f.path.name ++ ": ".toList ++ fault.message

def analyze (p : Plan) (s : Synthesis) (mode : DelimiterMode) : Analysis :=
  let base : Analysis :=
    { path := p.source.path
      totalLines := p.source.lineCount
      importCount := p.importCount
      blockCounts := p.groups.map fun g => (g.category, g.blocks.length)
      warnings := p.warnings }
  if s.isEmpty then base
  else
    let files := s.files.map (fun f => (f.path, Text.countChar '\n' f.text)) ++
      [(p.source.path, Text.countChar '\n' s.replacement)]
    {base with
      files := files
      estimatedReduction := p.source.lineCount - (files.map (·.2)).foldl max 0
      errors := s.files.filterMap (·.fault? mode)}

namespace Analysis

open Text

def summaryLines (a : Analysis) : List Text :=
  let head := a.path.text ++ ": ".toList ++ ofNat a.totalLines ++ " lines, ".toList ++
    ofNat a.importCount ++ " imports".toList
  if !a.wouldSplit then [head, "  nothing to split".toList]
  else
    [head] ++
    a.blockCounts.map (fun (c, n) =>
      "  ".toList ++ c.text ++ ": ".toList ++ ofNat n ++ " block(s)".toList) ++
    ["  would write:".toList] ++
    a.files.map (fun (path, n) =>
      "    ".toList ++ path.name ++ " (".toList ++ ofNat n ++ " lines)".toList) ++
    ["  estimated reduction: ".toList ++ ofNat a.estimatedReduction ++ " lines".toList] ++
    a.warnings.map (fun w => "  warning: ".toList ++ w.shown) ++
    a.errors.map ("  error: ".toList ++ ·)

end Analysis

end ModuleSplit
