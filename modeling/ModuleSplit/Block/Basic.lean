import ModuleSplit.Declaration.Basic
import ModuleSplit.Path
import ModuleSplit.Text.Encoding

namespace ModuleSplit

inductive Newline where
  | lf
  | crlf
  deriving DecidableEq, Repr

def Newline.text : Newline → Text
  | .lf => ['\n']
  | .crlf => ['\r', '\n']

-- The lines of a file, with what is needed to write files in the same manner.
structure Source where
  path : Path
  lines : List Text
  newline : Newline := .lf
  trailingNewline : Bool := true
  deriving DecidableEq, Repr

namespace Source

def ofText (t : Text) (path : Path) : Source :=
  let plain := Text.foldCrLf t
  let trailing := Text.endsWith plain "\n"
  let body := if trailing then plain.dropLast else plain
  { path := path
    lines := if body.isEmpty then [] else Text.lines body
    newline := if Text.holds t "\r\n" then .crlf else .lf
    trailingNewline := trailing }

def text (s : Source) : Text := Text.unlines s.lines

def lineCount (s : Source) : Nat := s.lines.length

end Source

-- The lines `start` up to but excluding `stop`, counted from zero.
structure Block where
  start : Nat
  stop : Nat
  kind : BlockKind
  text : Text
  names : List Text := []
  unterminated : Bool := false
  deriving DecidableEq, Repr

namespace Block

def name? (b : Block) : Option Text := b.names.head?

def firstLine (b : Block) : Text := Text.trim (Text.cut '\n' b.text).1

def lineCount (b : Block) : Nat := b.stop - b.start

def label (b : Block) : Text := b.name?.getD b.kind.name.toList

def shown (b : Block) : Text :=
  b.label ++ ['['] ++ Text.ofNat (b.start + 1) ++ ['-'] ++ Text.ofNat b.stop ++ [']']

end Block

inductive ScanState where
  | inImport
  | inType
  | inConstant
  | inFunction
  | inStatement
  deriving DecidableEq, Repr

namespace ScanState

def name : ScanState → String
  | .inImport => "in_import"
  | .inType => "in_type"
  | .inConstant => "in_constant"
  | .inFunction => "in_function"
  | .inStatement => "in_statement"

def ofKind : BlockKind → ScanState
  | .import_ => .inImport
  | .typedef => .inType
  | .constant => .inConstant
  | .function | .component => .inFunction
  | .statement => .inStatement

end ScanState

inductive Finding where
  | unterminated (state : ScanState)
  | unbalancedCloser
  | unrecognised (head : Text)
  | unknownExport (name : Text)
  deriving DecidableEq, Repr

namespace Finding

def kindName : Finding → String
  | .unterminated _ => "unterminated_block"
  | .unbalancedCloser => "unbalanced_closer"
  | .unrecognised _ | .unknownExport _ => "classification_miss"

def message : Finding → Text
  | .unterminated state =>
    (state.name ++ " block starting here never closes; kept up to end of file").toList
  | .unbalancedCloser => "closing delimiter without a matching opener".toList
  | .unrecognised head => "unrecognised statement kept in the 'other' file: ".toList ++ head
  | .unknownExport name => "export of unknown name '".toList ++ name ++ "' dropped".toList

end Finding

structure Warning where
  line : Nat
  finding : Finding
  deriving DecidableEq, Repr

def Warning.shown (w : Warning) : Text :=
  "line ".toList ++ Text.ofNat w.line ++ ": ".toList ++ w.finding.message

end ModuleSplit
